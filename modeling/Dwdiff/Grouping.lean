/-
This file proves that short options may share an element: the loop takes the same
actions for `-abc` as for `-a`, `-b` and `-c`, and it leaves the argument vector to
the bodies, so that the vector can be parsed twice. What a body stores of a group is
another matter: the loop frees the copy that it was read from.
-/

import Dwdiff.Arguments

namespace Dwdiff

open Outcome

variable {function : ParseFunction} {body : Bodies} {argv : List (List UInt8)} {last : UInt8}
  {check : OptionCheck} {fuel : Nat} {state : OptionState} {scan : Scan} {letters text : List UInt8}

/-! ### Elements that are not looked at -/

/-- A body ended the program, or `fatal` was called with a message that names the option. -/
def Announced (body : Bodies) (stop : Stop) : Prop :=
  body.ends stop.1 = some stop.2 ∨ ∃ name message, stop.2 = .failed (optionMessage name message)

/-- Whenever `step` goes on so does `other`, in the same way and whatever is behind the elements
that are taken; and it only stops as a body or a message says. -/
def Local (body : Bodies) (step other : Scan → Except Stop Scan) : Prop :=
  ∀ scan, Meets (Announced body) (fun next => ∃ taken, scan.remaining = taken ++ next.remaining ∧
    ∀ rest, other { scan with remaining := taken ++ rest } = .ok { next with remaining := rest })
    (step scan)

/-- A parse function that goes on wherever another one does. -/
structure Looser (function other : ParseFunction) (body others : Bodies) : Prop where
  function : other = function ∨ other = .preParseArgs
  body : ∀ actions, body.ends actions = none → others.ends actions = none

theorem Looser.refl (function : ParseFunction) (body : Bodies) :
    Looser function function body body := ⟨Or.inl rfl, fun _ goesOn => goesOn⟩

theorem local_ok (body : Bodies) : Local body .ok .ok := fun _ => ⟨[], rfl, fun _ => rfl⟩

theorem local_bind {first other second others : Scan → Except Stop Scan}
    (isFirst : Local body first other) (isSecond : Local body second others) :
    Local body (fun scan => first scan >>= second) fun scan => other scan >>= others := by
  refine fun scan => (isFirst scan).bind fun middle goesOn => (isSecond middle).mono ?_
  obtain ⟨taken, isTaken, goesOn'⟩ := goesOn
  rintro next ⟨taken', isTaken', goesOn''⟩
  refine ⟨taken ++ taken', by rw [isTaken, isTaken', List.append_assoc], fun rest => ?_⟩
  dsimp only
  rw [List.append_assoc, goesOn']
  exact goesOn'' rest

theorem local_update {step other : Scan → Except Stop Scan} (isLocal : Local body step other)
    (update : Bool → Bool) :
    Local body (fun scan => step { scan with optnomore := update scan.optnomore })
      fun scan => other { scan with optnomore := update scan.optnomore } :=
  fun scan => isLocal { scan with optnomore := update scan.optnomore }

section Steps

variable {other : ParseFunction} {others : Bodies}
  (looser : Looser function other body others)
include looser

theorem local_perform (action : Action) :
    Local body (Scan.perform body action) (Scan.perform others action) := by
  intro scan
  unfold Scan.perform
  cases ends : body.ends (scan.actions ++ [action]) with
  | some ended => exact Or.inl ends
  | none =>
    refine ⟨[], rfl, fun rest => ?_⟩
    dsimp only
    rw [looser.body _ ends]
    rfl

theorem local_unknown (name : List UInt8) :
    Local body (fun scan => scan.unknown function name) fun scan => scan.unknown other name := by
  intro scan
  cases function with
  | preParseArgs =>
    obtain rfl : other = .preParseArgs := or_self_iff.mp looser.function
    exact ⟨[], rfl, fun rest => rfl⟩
  | parseArgs dwfilterMode => exact Or.inr ⟨name, _, rfl⟩

theorem local_required (check : OptionCheck) (name : List UInt8) (optArg : Option (List UInt8)) :
    Local body (Scan.required body check name optArg) (Scan.required others check name optArg) := by
  intro scan
  unfold Scan.required
  cases optArg with
  | some argument => exact local_perform looser _ scan
  | none =>
    dsimp only [Scan.takeArgument]
    cases isRemaining : scan.remaining with
    | nil => exact Or.inr ⟨name, _, rfl⟩
    | cons argument rest =>
      refine (local_perform looser _ { scan with remaining := rest }).mono ?_
      rintro next ⟨taken, isRest, goesOn⟩
      exact ⟨argument :: taken, congrArg _ isRest, goesOn⟩

theorem local_readLetter (letter : UInt8) (more : List UInt8)
    {again again' : Scan → Except Stop Scan} (isLocal : Local body again again') :
    Local body (readLetter function body letter more again)
      (readLetter other others letter more again') := by
  unfold readLetter
  cases optionChecks.find? fun check => check.isShort letter with
  | none => exact local_unknown looser _
  | some check =>
    dsimp only
    cases check.argReq with
    | noArg => exact local_bind (local_perform looser _) isLocal
    | optionalArg => exact local_perform looser _
    | requiredArg => exact local_required looser _ _ _

theorem local_readGroup (letter : UInt8) (more : List UInt8) :
    Local body (readGroup function body letter more) (readGroup other others letter more) := by
  induction more generalizing letter with
  | nil => exact local_readLetter looser letter [] (local_ok body)
  | cons next more inductionHypothesis =>
    exact local_readLetter looser letter (next :: more) (inductionHypothesis next)

theorem local_readLong (element : List UInt8) :
    Local body (readLong function body element) (readLong other others element) := by
  unfold readLong
  generalize element.findIdx (· == 0x3D) = length
  dsimp only
  cases optionChecks.find? fun check => check.isLong (min length maximalLength) element with
  | none => exact local_unknown looser _
  | some check =>
    dsimp only
    cases check.argReq with
    | noArg =>
      by_cases alone : (if length = element.length then none
          else some (element.drop (length + 1))) = none
      · simp only [if_pos alone]
        exact local_update (local_perform looser _) (· || check == doubleDash)
      · simp only [if_neg alone]
        exact fun scan => Or.inr ⟨_, _, rfl⟩
    | optionalArg => exact local_update (local_perform looser _) (· || check == doubleDash)
    | requiredArg => exact local_update (local_required looser _ _ _) (· || check == doubleDash)

/-- An element is read without a look at those behind its argument. -/
theorem local_readElement (element : List UInt8) :
    Local body (readElement function body element) (readElement other others element) := by
  intro scan
  unfold readElement
  by_cases option : element.head? = some 0x2D && !scan.optnomore
  · simp only [if_pos option]
    by_cases double : element[1]? = some 0x2D
    · simp only [if_pos double]
      exact local_readLong looser element scan
    · simp only [if_neg double]
      exact local_readGroup looser _ _ scan
  · simp only [if_neg option]
    exact local_perform looser _ scan

end Steps

/-! ### All elements -/

section Runs

variable (function : ParseFunction) (body : Bodies)

theorem readElement_remaining {element : List UInt8} {next : Scan}
    (reads : readElement function body element scan = .ok next) :
    next.remaining.length ≤ scan.remaining.length := by
  obtain ⟨taken, isTaken, -⟩ :=
    (local_readElement (.refl function body) element scan).of_ok reads
  rw [isTaken, List.length_append]
  exact Nat.le_add_left _ _

/-- Read what is left. -/
def readElements (scan : Scan) : Except Stop Scan :=
  match _isRemaining : scan.remaining with
  | [] => .ok scan
  | element :: rest =>
    match _reads : readElement function body element { scan with remaining := rest } with
    | .ok next => readElements next
    | .error stop => .error stop
termination_by scan.remaining.length
decreasing_by
  rw [_isRemaining]
  exact Nat.lt_succ_of_le (readElement_remaining function body _reads)

variable {function body}

theorem readElements_nil (isRemaining : scan.remaining = []) :
    readElements function body scan = .ok scan := by
  rw [readElements]
  split
  · rfl
  · rename_i other
    rw [isRemaining] at other
    contradiction

theorem readElements_cons {element : List UInt8} {rest : List (List UInt8)}
    (isRemaining : scan.remaining = element :: rest) :
    readElements function body scan =
      readElement function body element { scan with remaining := rest } >>=
        readElements function body := by
  rw [readElements]
  split
  · rename_i other
    rw [isRemaining] at other
    contradiction
  · rename_i element' rest' other
    rw [isRemaining, List.cons.injEq] at other
    obtain ⟨rfl, rfl⟩ := other
    cases readElement function body element { scan with remaining := rest } <;> rfl

/-- A looser parse function takes the actions of one that returns. Only a body or a message about
an option ends the reading early. -/
theorem readElements_looser {other : ParseFunction} {others : Bodies}
    (looser : Looser function other body others) (scan : Scan) :
    Meets (Announced body) (fun final => readElements other others scan = .ok final)
      (readElements function body scan) := by
  generalize isLength : scan.remaining.length = length
  induction length using Nat.strongRecOn generalizing scan with
  | ind length inductionHypothesis =>
    cases isRemaining : scan.remaining with
    | nil =>
      rw [readElements_nil isRemaining, readElements_nil isRemaining]
      exact rfl
    | cons first rest =>
      rw [isRemaining, List.length_cons] at isLength
      rw [readElements_cons isRemaining, readElements_cons isRemaining]
      refine (local_readElement looser first _).bind ?_
      rintro next ⟨taken, isTaken, goesOn⟩
      have isRest : rest = taken ++ next.remaining := isTaken
      have shorter := congrArg List.length isRest
      rw [List.length_append] at shorter
      rw [isRest, goesOn]
      exact inductionHypothesis _ (by omega) next rfl

variable (cStrings : ∀ element ∈ argv, 0 ∉ element)
include cStrings

/-- The loop reads the elements that are left. -/
theorem optionLoop_agrees (follows : Accompanies body argv 0 state scan)
    (enough : scan.remaining.length < fuel) :
    Agree (Accompanies body argv 0) (optionLoop function body fuel state)
      (readElements function body scan) := by
  induction fuel generalizing state scan with
  | zero => omega
  | succ fuel inductionHypothesis =>
    rw [optionLoop]
    by_cases more : state.optargind < state.argv.length
    · have next : scan.remaining =
          state.argv[state.optargind] :: state.argv.drop (state.optargind + 1) :=
        follows.unread.symm.trans (List.drop_eq_getElem_cons more)
      rw [if_pos more, readElements_cons next]
      refine (parseArgument_agrees cStrings follows next).and_ok.bind fun after scan' both => ?_
      have shorter := readElement_remaining function body both.2
      rw [next, List.length_cons] at enough
      exact inductionHypothesis both.1 (Nat.lt_of_le_of_lt shorter (Nat.lt_of_succ_lt_succ enough))
    · have done : scan.remaining = [] :=
        follows.unread.symm.trans (List.drop_eq_nil_of_le (Nat.le_of_not_lt more))
      rw [if_neg more, readElements_nil done]
      exact follows

/-- A parse function reads all elements but the first. -/
theorem parse_agrees (function : ParseFunction) (body : Bodies) :
    Agree (Accompanies body argv 0) (parse function body argv)
      (readElements function body ⟨argv.drop 1, false, []⟩) := by
  refine optionLoop_agrees cStrings ⟨rfl, rfl, rfl, rfl, fun _ => rfl⟩ ?_
  show (argv.drop 1).length < argv.length + 1
  rw [List.length_drop]
  omega

/-- Where a round starts, the elements before it have been read, whatever is behind them. -/
theorem StartsRound.reads (arrives : StartsRound function body argv state) :
    ∃ scan taken, Accompanies body argv 0 state scan ∧ argv.drop 1 = taken ++ scan.remaining ∧
      ∀ others, readElements function body ⟨taken ++ others, false, []⟩ =
        readElements function body { scan with remaining := others } := by
  induction arrives with
  | start =>
    exact ⟨⟨argv.drop 1, false, []⟩, [], ⟨rfl, rfl, rfl, rfl, fun _ => rfl⟩, rfl, fun _ => rfl⟩
  | @round state next arrives more parses inductionHypothesis =>
    obtain ⟨scan, taken, follows, isTaken, reads⟩ := inductionHypothesis
    have isRemaining : scan.remaining =
        state.argv[state.optargind] :: state.argv.drop (state.optargind + 1) :=
      follows.unread.symm.trans (List.drop_eq_getElem_cons more)
    have agrees := @parseArgument_agrees function body argv _ state scan _ cStrings follows
      isRemaining
    rw [parses] at agrees
    obtain ⟨scan', goesOn, follows'⟩ := agrees.exists_ok
    obtain ⟨taken', isTaken', goesOn'⟩ :=
      (local_readElement (.refl function body) _ _).of_ok goesOn
    refine ⟨scan', taken ++ state.argv[state.optargind] :: taken', follows', ?_, fun others => ?_⟩
    · rw [isTaken, isRemaining, List.append_assoc, List.cons_append]
      exact congrArg (taken ++ state.argv[state.optargind] :: ·) isTaken'
    · rw [List.append_assoc, reads, List.cons_append, readElements_cons rfl]
      exact (congrArg (· >>= readElements function body) (goesOn' others)).trans rfl

end Runs

/-! ### Letters in one element -/

/-- The option is declared with this letter. -/
def Declares (letter : UInt8) (check : OptionCheck) : Prop :=
  check ∈ optionChecks ∧ check.shortName = some letter

/-- No option hides another one, and none has a dash as its letter. -/
theorem optionChecks_letters :
    ∀ check ∈ optionChecks, ∀ letter ∈ check.shortName, letter ≠ 0x2D ∧
      (optionChecks.find? fun check => check.isShort letter) = some check := by
  decide +kernel

/-- The letter is that of an option without an argument. -/
def DeclaresNoArg (letter : UInt8) : Prop := ∃ check, Declares letter check ∧ check.argReq = .noArg

theorem Declares.found {letter : UInt8} (declares : Declares letter check) :
    letter ≠ 0x2D ∧ (optionChecks.find? fun check => check.isShort letter) = some check :=
  optionChecks_letters check declares.1 letter declares.2

/-- Each letter in an element of its own, the last one with the text behind it. -/
def separate (letters : List UInt8) (last : UInt8) (text : List UInt8) : List (List UInt8) :=
  letters.map (fun letter => [0x2D, letter]) ++ [0x2D :: last :: text]

theorem readElements_short (enabled : scan.optnomore = false) {letter : UInt8}
    (noDash : letter ≠ 0x2D) (more : List UInt8) (rest : List (List UInt8)) :
    readElements function body { scan with remaining := (0x2D :: letter :: more) :: rest } =
      readGroup function body letter more { scan with remaining := rest } >>=
        readElements function body := by
  rw [readElements_cons rfl, readElement, if_pos (by simp [enabled]),
    if_neg (by simpa using noDash)]
  rfl

/-- The letters of a group are read as if each had an element of its own. -/
theorem readElements_separate (enabled : scan.optnomore = false)
    (noArgs : ∀ letter ∈ letters, DeclaresNoArg letter) (noDash : last ≠ 0x2D) (text : List UInt8)
    (rest : List (List UInt8)) :
    readElements function body
        { scan with remaining := (0x2D :: letters ++ last :: text) :: rest } =
      readElements function body
        { scan with remaining := separate letters last text ++ rest } := by
  induction letters generalizing scan with
  | nil => rfl
  | cons letter letters inductionHypothesis =>
    obtain ⟨declares, others⟩ := List.forall_mem_cons.mp noArgs
    obtain ⟨check, declares, isNoArg⟩ := declares
    obtain ⟨noDash', found⟩ := declares.found
    obtain ⟨next, more, isMore, noDash''⟩ : ∃ next more, letters ++ last :: text = next :: more ∧
        next ≠ 0x2D := by
      cases letters with
      | nil => exact ⟨last, text, rfl, noDash⟩
      | cons next letters =>
        obtain ⟨check', declares', -⟩ := others next List.mem_cons_self
        exact ⟨next, _, rfl, declares'.found.1⟩
    have grouped := @inductionHypothesis
      { scan with actions := scan.actions ++ [.option check none] } enabled others
    have single := @readElements_short function body
      { scan with actions := scan.actions ++ [.option check none] } enabled next noDash''
    rw [List.cons_append, isMore, single] at grouped
    rw [List.cons_append, List.cons_append, isMore, readElements_short enabled noDash']
    show _ = readElements function body
      { scan with remaining := [0x2D, letter] :: (separate letters last text ++ rest) }
    rw [readElements_short enabled noDash', readGroup, readGroup, readLetter, readLetter, found]
    dsimp only
    rw [isNoArg]
    dsimp only [Scan.perform]
    cases body.ends (scan.actions ++ [.option check none]) with
    | none => exact grouped
    | some ended => rfl

/-! ### What the bodies have stored -/

/-- A stored pointer reads as the body left its argument. -/
def Retains (body : Bodies) (state : OptionState) (pointer : Pointer) : Prop :=
  ∃ check argument, state.actions.getLast? = some (.option check (some argument)) ∧
    state.text pointer = .ok (body.writes state.actions argument)

section Stored

variable {next : OptionState}

theorem overwrite_text {pointer : Pointer} {argument : List UInt8}
    (reads : state.text pointer = .ok argument) (change : List UInt8 → List UInt8) :
    (state.overwrite pointer change).text pointer = .ok (change argument) := by
  obtain ⟨whole, found, inside, rfl⟩ := exists_block reads
  have length : (whole.take pointer.offset).length = pointer.offset := List.length_take_of_le inside
  have written : (state.overwrite pointer change).block pointer.block =
      some (whole.take pointer.offset ++ change (whole.drop pointer.offset)) := by
    unfold OptionState.overwrite
    cases isBlock : pointer.block with
    | argv index =>
      rw [isBlock] at found
      exact List.getElem?_modify_eq _ _ _ |>.trans (congrArg _ found)
    | copy =>
      rw [isBlock] at found
      exact congrArg (Option.map _) found
  rw [text_eq written (by rw [List.length_append]; omega), List.drop_left' length]

theorem attempt_eq_ok {Value : Type} {step : Except Failure Value} {value : Value}
    (returns : state.attempt step = .ok value) : step = .ok value := by
  cases step with
  | ok found => exact congrArg Except.ok (Except.ok.inj returns)
  | error failure => contradiction

theorem perform_eq {action : Action} (returns : perform body action state = .ok next) :
    next = { state with actions := state.actions ++ [action] } := by
  unfold perform at returns
  dsimp only at returns
  split at returns
  · exact (Except.ok.inj returns).symm
  · contradiction

/-- Behind the body of an option. -/
theorem runOption_stores (returns : runOption function body check state = .ok next) :
    next.optcontrol = state.optcontrol ∧
      next.kept = state.kept ++
        (if keepsArgument function check then state.optArg.toList else []) ∧
      ∀ pointer, state.optArg = some pointer → Retains body next pointer := by
  obtain ⟨optArg, finds, rest⟩ := bind_eq_ok.mp returns
  obtain ⟨performed, performs, rest⟩ := bind_eq_ok.mp rest
  obtain rfl := Except.ok.inj rest
  have isPerformed := perform_eq performs
  have same : performed.optArg = state.optArg := isPerformed ▸ rfl
  rcases Option.eq_none_or_eq_some state.optArg with missing | ⟨pointer, given⟩
  · rw [useArgument_none function body (same.trans missing), missing, isPerformed]
    exact ⟨rfl, by simp, by simp⟩
  · have finds' := attempt_eq_ok finds
    rw [argumentOf, given] at finds'
    obtain ⟨argument, reads, isSome⟩ := bind_eq_ok.mp finds'
    obtain rfl := Except.ok.inj isSome
    have reads' : performed.text pointer = .ok argument := isPerformed ▸ reads
    rw [useArgument_some function body (same.trans given), given]
    refine ⟨(OptionState.overwrite_optcontrol _ _ _).trans (isPerformed ▸ rfl), ?_, ?_⟩
    · rw [isPerformed]
      rfl
    · rintro _ ⟨⟩
      have actions : (performed.overwrite pointer (body.writes performed.actions)).actions =
          performed.actions := by
        unfold OptionState.overwrite
        cases pointer.block <;> rfl
      refine ⟨check, argument, ?_, ?_⟩
      · refine (congrArg List.getLast? actions).trans ?_
        rw [isPerformed]
        exact List.getLast?_concat
      · refine (overwrite_text reads' _).trans ?_
        exact congrArg (fun actions => Except.ok (body.writes actions argument)) actions.symm

/-- At the end of an element the copy is freed. -/
theorem checkNext_retains {again : OptionState → Except Stop OptionState}
    (alone : state.optcontrol = 0 ∨ state.optcontrol = 2)
    (returns : checkNext again state = .ok next) :
    next.kept = state.kept ∧ ∀ pointer, Retains body state pointer →
      (Retains body next pointer ↔ state.optcontrol = 0 ∨ pointer.block ≠ .copy) := by
  unfold checkNext at returns
  rw [if_neg (by omega)] at returns
  by_cases copied : state.optcontrol = 2
  · rw [if_pos copied] at returns
    obtain rfl := Except.ok.inj returns
    refine ⟨rfl, fun pointer retains => ?_⟩
    obtain ⟨check, argument, last, reads⟩ := retains
    unfold OptionState.text OptionState.block at reads
    cases isBlock : pointer.block with
    | argv index =>
      refine iff_of_true ⟨check, argument, last, ?_⟩ (Or.inr (by simp))
      unfold OptionState.text OptionState.block
      rw [isBlock] at reads ⊢
      exact reads
    | copy =>
      refine iff_of_false ?_ (by simp [copied])
      rintro ⟨check', argument', -, reads'⟩
      unfold OptionState.text OptionState.block at reads'
      rw [isBlock] at reads'
      contradiction
  · rw [if_neg copied] at returns
    obtain rfl := Except.ok.inj returns
    exact ⟨rfl, fun pointer retains => iff_of_true retains (Or.inl (alone.resolve_right copied))⟩

/-- The argument of the last letter: in the same string, or the next element. -/
theorem checkArg_argument {argReq : ArgReq}
    (atShort : AtShort body argv (last :: text) state scan) (ends : argReq ≠ .noArg ∨ text = [])
    (checks : checkArg argReq state = .ok next) :
    next.kept = state.kept ∧ next.optcontrol = state.optcontrol ∧
      (text ≠ [] → next.optArg = some (state.optcurrent.plus 2)) ∧
      (text = [] → ∀ pointer, next.optArg = some pointer → pointer.block ≠ .copy) := by
  have given := atShort.optArg
  rw [List.drop_one, List.tail_cons] at given
  by_cases alone : text = []
  · rw [if_pos alone] at given
    have other : ∀ pointer, state.optArg = some pointer → pointer.block ≠ .copy := by
      simp [given]
    cases argReq with
    | noArg =>
      rw [checkArg, if_neg (not_not.mpr given)] at checks
      obtain rfl := Except.ok.inj checks
      exact ⟨rfl, rfl, fun attached => absurd alone attached, fun _ => other⟩
    | optionalArg =>
      obtain rfl := Except.ok.inj checks
      exact ⟨rfl, rfl, fun attached => absurd alone attached, fun _ => other⟩
    | requiredArg =>
      unfold checkArg at checks
      simp only [given, if_true] at checks
      split at checks
      · rw [fatalOption_eq atShort.reads] at checks
        contradiction
      · obtain rfl := Except.ok.inj checks
        exact ⟨rfl, rfl, fun attached => absurd alone attached, by rintro _ _ ⟨⟩; simp⟩
  · rw [if_neg alone] at given
    have same : next = state := by
      cases argReq with
      | noArg => exact absurd rfl (ends.resolve_right alone)
      | optionalArg => exact (Except.ok.inj checks).symm
      | requiredArg =>
        rw [checkArg, if_neg (by simp [given]), if_neg (by simp [given])] at checks
        exact (Except.ok.inj checks).symm
    subst same
    exact ⟨rfl, rfl, fun _ => given, fun missing => absurd missing alone⟩

/-- What the last letter of an element has stored is freed if it stands in the copy. -/
theorem nextOpt_retains (declares : Declares last check)
    (ends : check.argReq ≠ .noArg ∨ text = [])
    (atShort : AtShort body argv (last :: text) state scan)
    (returns : nextOpt function body (fuel + 1) state = .ok next) :
    (∀ pointer ∈ next.kept.drop state.kept.length, Retains body next pointer) ↔
      state.optcontrol = 0 ∨ text = [] ∨ keepsArgument function check = false := by
  have tests : matching state = .ok (some check) := declares.found.2 ▸ atShort.matching
  rw [nextOpt_some function body tests] at returns
  obtain ⟨checked, checks, rest⟩ := bind_eq_ok.mp returns
  obtain ⟨ran, runs, goesOn⟩ := bind_eq_ok.mp rest
  obtain ⟨sameKept, sameControl, attached, other⟩ := checkArg_argument atShort ends checks
  obtain ⟨ranControl, ranKept, retains⟩ := runOption_stores runs
  rw [sameControl] at ranControl
  have place := atShort.optcontrol
  obtain ⟨nextKept, freed⟩ := @checkNext_retains body ran next _
    (by rw [ranControl]; exact place.imp And.left And.left) goesOn
  rw [nextKept, ranKept, sameKept, List.drop_left]
  cases keeps : keepsArgument function check with
  | false => simp
  | true =>
    have stored : (∀ pointer ∈ checked.optArg.toList, Retains body next pointer) ↔
        ∀ pointer, checked.optArg = some pointer →
          state.optcontrol = 0 ∨ pointer.block ≠ .copy := by
      simp only [Option.mem_toList]
      exact forall₂_congr fun pointer given =>
        ranControl ▸ freed pointer (retains pointer given)
    rw [if_pos rfl, stored]
    by_cases alone : text = []
    · exact iff_of_true (fun pointer given => Or.inr (other alone pointer given))
        (Or.inr (Or.inl alone))
    · rw [attached alone]
      simp only [Option.some.injEq, forall_eq', alone, Bool.true_eq_false, or_false]
      refine or_iff_left_of_imp fun outside => ?_
      exact (place.resolve_right fun inCopy => outside inCopy.2).1

/-- The letters before the last one move the rest of the element to the copy. -/
theorem nextOpt_last (noArgs : ∀ letter ∈ letters, DeclaresNoArg letter)
    (noNul : 0 ∉ letters ++ last :: text) (enough : letters.length < fuel)
    (atShort : AtShort body argv (letters ++ last :: text) state scan)
    (returns : nextOpt function body fuel state = .ok next) :
    ∃ fuel' after scan', AtShort body argv (last :: text) after scan' ∧
      nextOpt function body (fuel' + 1) after = .ok next ∧ after.kept = state.kept ∧
      (letters = [] → after = state) ∧ (letters ≠ [] → after.optcurrent.block = .copy) := by
  induction letters generalizing fuel state scan with
  | nil =>
    obtain ⟨fuel', rfl⟩ := Nat.exists_eq_succ_of_ne_zero (Nat.pos_iff_ne_zero.mp enough)
    exact ⟨fuel', state, scan, atShort, returns, rfl, fun _ => rfl, fun some => absurd rfl some⟩
  | cons letter letters inductionHypothesis =>
    obtain ⟨fuel', rfl⟩ := Nat.exists_eq_succ_of_ne_zero (Nat.pos_iff_ne_zero.mp
      (Nat.lt_of_le_of_lt (Nat.zero_le _) enough))
    obtain ⟨⟨check, declares, isNoArg⟩, others⟩ := List.forall_mem_cons.mp noArgs
    obtain ⟨first, more, isMore⟩ : ∃ first more, letters ++ last :: text = first :: more := by
      cases letters <;> exact ⟨_, _, rfl⟩
    have noNul' : 0 ∉ letters ++ last :: text := List.not_mem_of_not_mem_cons noNul
    rw [List.cons_append, isMore] at atShort
    obtain ⟨shift, shifts, agrees⟩ := @nextOpt_noArg function body argv state scan letter first more
      atShort (isMore ▸ noNul') check declares.found.2 isNoArg fuel'
    rw [shifts] at returns
    obtain ⟨shifted, isShifted, goesOn⟩ := bind_eq_ok.mp returns
    rw [isShifted] at agrees
    obtain ⟨scan', -, atShort', inCopy, kept⟩ := agrees.exists_ok
    rw [← isMore] at atShort'
    obtain ⟨fuel'', after, scan'', atLast, returns', kept', same, copied⟩ :=
      inductionHypothesis others noNul' (Nat.lt_of_succ_lt_succ enough) atShort' goesOn
    refine ⟨fuel'', after, scan'', atLast, returns', kept'.trans kept, nofun, fun _ => ?_⟩
    by_cases none : letters = []
    · rw [same none]
      exact inCopy
    · exact copied none

end Stored

/-! ### Both functions, on the vector as it was -/

/-- The actions of a run, and how it ended if it did not reach the end of the vector. -/
def actionsOf : Except Stop OptionState → List Action × Option Ending
  | .ok state => (state.actions, none)
  | .error stop => (stop.1, some stop.2)

theorem actionsOf_eq {argv' : List (List UInt8)} {first second : Except Stop OptionState}
    {reading : Except Stop Scan} (agrees : Agree (Accompanies body argv 0) first reading)
    (agrees' : Agree (Accompanies body argv' 0) second reading) :
    actionsOf first = actionsOf second := by
  cases reading with
  | ok scan =>
    cases first with
    | error stop => exact agrees.elim
    | ok state =>
      cases second with
      | error stop => exact agrees'.elim
      | ok state' => exact congrArg (·, none) (agrees.actions.symm.trans agrees'.actions)
  | error stop =>
    cases first with
    | ok state => exact agrees.elim
    | error stop' =>
      cases second with
      | ok state' => exact agrees'.elim
      | error stop'' =>
        obtain rfl : stop' = stop := agrees
        obtain rfl : stop'' = stop' := agrees'
        rfl

section Vector

variable (cStrings : ∀ element ∈ argv, 0 ∉ element)
include cStrings

theorem parse_returns (returns : parse function body argv = .ok state) :
    ∃ scan, readElements function body ⟨argv.drop 1, false, []⟩ = .ok scan ∧
      Accompanies body argv 0 state scan := by
  have agrees := parse_agrees cStrings function body
  rw [returns] at agrees
  exact agrees.exists_ok

/-- If both functions return, they have taken the same actions. -/
theorem parse_twice {others : Bodies} (quiet : body.Quiet) {dwfilterMode : Bool}
    {first second : OptionState} (firstReturns : parse .preParseArgs body argv = .ok first)
    (secondReturns : parse (.parseArgs dwfilterMode) others first.argv = .ok second) :
    first.argv = argv ∧ second.actions = first.actions := by
  obtain ⟨scan, reads, follows⟩ := parse_returns cStrings firstReturns
  rw [follows.unchanged quiet] at secondReturns
  obtain ⟨scan', reads', follows'⟩ := parse_returns cStrings secondReturns
  have loosest := (@readElements_looser _ _ .preParseArgs .none ⟨Or.inr rfl, fun _ _ => rfl⟩
    _).of_ok reads
  have loosest' := (@readElements_looser _ _ .preParseArgs .none ⟨Or.inr rfl, fun _ _ => rfl⟩
    _).of_ok reads'
  obtain rfl : scan = scan' := Except.ok.inj (loosest.symm.trans loosest')
  exact ⟨follows.unchanged quiet, follows'.actions.symm.trans follows.actions⟩

theorem separate_cStrings {index : Nat}
    (isGroup : argv[index]? = some (0x2D :: letters ++ last :: text)) :
    ∀ element ∈ argv.take index ++ separate letters last text ++ argv.drop (index + 1),
      0 ∉ element := by
  have noNul := cStrings _ (List.mem_of_getElem? isGroup)
  simp only [List.cons_append, List.mem_cons, List.mem_append, not_or] at noNul
  obtain ⟨-, letters', last', text'⟩ := noNul
  intro element isMember
  simp only [separate, List.mem_append, List.mem_map, List.mem_singleton] at isMember
  rcases isMember with (before | ⟨letter, isLetter, rfl⟩ | rfl) | behind
  · exact cStrings element (List.mem_of_mem_take before)
  · simp only [List.mem_cons, List.not_mem_nil, or_false, not_or]
    exact ⟨by decide, fun isNul => letters' (isNul ▸ isLetter)⟩
  · simp only [List.mem_cons, not_or]
    exact ⟨by decide, last', text'⟩
  · exact cStrings element (List.mem_of_mem_drop behind)

section Reached

variable (arrives : StartsRound function body argv state) (enabled : state.optnomore = false)
  (isGroup : argv[state.optargind]? = some (0x2D :: letters ++ last :: text))
  (noArgs : ∀ letter ∈ letters, DeclaresNoArg letter)
include isGroup

omit cStrings in
theorem group_remaining (follows : Accompanies body argv 0 state scan) :
    scan.remaining = (0x2D :: letters ++ last :: text) :: argv.drop (state.optargind + 1) := by
  obtain ⟨inside, isElement⟩ := List.getElem?_eq_some_iff.mp isGroup
  rw [follows.remaining, ← isElement]
  exact List.drop_eq_getElem_cons inside

include arrives enabled noArgs

/-- A group that the loop reaches can be taken apart. -/
theorem parse_separate (noDash : last ≠ 0x2D) :
    actionsOf (parse function body (argv.take state.optargind ++ separate letters last text ++
        argv.drop (state.optargind + 1))) =
      actionsOf (parse function body argv) := by
  obtain ⟨scan, taken, follows, isTaken, reads⟩ := arrives.reads cStrings
  obtain ⟨inside, -⟩ := List.getElem?_eq_some_iff.mp isGroup
  have isRemaining := group_remaining isGroup follows
  have index : state.optargind = taken.length + 1 := by
    have lengths := congrArg List.length isTaken
    rw [follows.remaining, List.length_append, List.length_drop, List.length_drop] at lengths
    omega
  have front : (argv.take state.optargind).drop 1 = taken := by
    rw [List.drop_take, isTaken, index]
    exact List.take_left
  have original := parse_agrees cStrings function body
  have replaced := parse_agrees (separate_cStrings cStrings isGroup) function body
  rw [isTaken, reads, isRemaining, readElements_separate (by rw [follows.optnomore, enabled])
    noArgs noDash] at original
  rw [List.append_assoc, List.drop_append_of_le_length, front, reads] at replaced
  · rw [List.append_assoc]
    exact actionsOf_eq replaced original
  · rw [List.length_take]
    omega

/-- What a group has stored is still there behind it, unless it stood in the copy. -/
theorem parseArgument_retains (declares : Declares last check)
    (ends : check.argReq ≠ .noArg ∨ text = []) {next : OptionState}
    (returns : parseArgument function body state = .ok next) :
    (∀ pointer ∈ next.kept.drop state.kept.length, Retains body next pointer) ↔
      letters = [] ∨ text = [] ∨ keepsArgument function check = false := by
  obtain ⟨scan, -, follows, -, -⟩ := arrives.reads cStrings
  have isRemaining := group_remaining isGroup follows
  have noNul : 0 ∉ letters ++ last :: text :=
    List.not_mem_of_not_mem_cons (cStrings _ (List.mem_of_getElem? isGroup))
  have single : (letters ++ last :: text).head? ≠ some 0x2D := by
    cases letters with
    | nil => simpa using declares.found.1
    | cons letter letters =>
      obtain ⟨check', declares', -⟩ := noArgs letter List.mem_cons_self
      simpa using declares'.found.1
  obtain ⟨started, atShort, fresh, sameKept, isElement⟩ := @parseElement_short function body argv
    _ state scan _ follows isRemaining noNul single (follows.optnomore.trans enabled)
  obtain ⟨middle, parses, isNext⟩ := bind_eq_ok.mp returns
  rw [isElement] at parses
  have enough : letters.length < (letters ++ last :: text).length + 1 + 1 := by
    rw [List.length_append]
    omega
  obtain ⟨fuel, after, scan', atLast, parses', sameKept', same, copied⟩ :=
    nextOpt_last noArgs noNul enough atShort parses
  obtain rfl := Except.ok.inj isNext
  rw [← sameKept, ← sameKept']
  refine (nextOpt_retains declares ends atLast parses').trans (or_congr_left ?_)
  by_cases none : letters = []
  · rw [same none]
    exact iff_of_true fresh none
  · refine iff_of_false (fun first => ?_) none
    rcases atLast.optcontrol with ⟨-, inVector⟩ | ⟨later, -⟩
    · rw [copied none] at inVector
      contradiction
    · omega

end Reached

end Vector

/-- Short options that share an element are taken as if each had an element of its own: at any
element that the loop reaches as an option, for any bodies. But a body that stores its argument
stores a pointer into the copy if the letter is not the first of its element, and the copy is freed
at the end of the element. The loop itself does not change the vector, and bodies only write where
it has been read, so that `parseArgs` sees the options that `preParseArgs` saw; and only a body or a
message about an option ends the loop early. -/
theorem grouped_as_separate {argv : List (List UInt8)}
    (cStrings : ∀ element ∈ argv, 0 ∉ element) :
    (∀ function body state letters last text check, StartsRound function body argv state →
      state.optnomore = false → argv[state.optargind]? = some (0x2D :: letters ++ last :: text) →
      (∀ letter ∈ letters, DeclaresNoArg letter) → Declares last check →
      actionsOf (parse function body (argv.take state.optargind ++ separate letters last text ++
          argv.drop (state.optargind + 1))) =
        actionsOf (parse function body argv) ∧
      (check.argReq ≠ .noArg ∨ text = [] → ∀ next,
        parseArgument function body state = .ok next →
        ((∀ pointer ∈ next.kept.drop state.kept.length, Retains body next pointer) ↔
          letters = [] ∨ text = [] ∨ keepsArgument function check = false))) ∧
    (∀ function body state, StartsRound function body argv state →
      state.argv.drop state.optargind = argv.drop state.optargind ∧
        (body.Quiet → state.argv = argv)) ∧
    (∀ body others dwfilterMode first second, body.Quiet →
      parse .preParseArgs body argv = .ok first →
      parse (.parseArgs dwfilterMode) others first.argv = .ok second →
      first.argv = argv ∧ second.actions = first.actions) ∧
    (∀ function body stop, parse function body argv = .error stop → Announced body stop) := by
  refine ⟨?_, ?_, ?_, ?_⟩
  · intro function body state letters last text check arrives enabled isGroup noArgs declares
    refine ⟨parse_separate cStrings arrives enabled isGroup noArgs declares.found.1, ?_⟩
    intro ends next returns
    exact parseArgument_retains cStrings arrives enabled isGroup noArgs declares ends returns
  · intro function body state arrives
    obtain ⟨scan, taken, follows, -⟩ := arrives.reads cStrings
    exact ⟨follows.unread.trans follows.remaining, follows.unchanged⟩
  · intro body others dwfilterMode first second quiet firstReturns secondReturns
    exact parse_twice cStrings quiet firstReturns secondReturns
  · intro function body stop stops
    have agrees := parse_agrees cStrings function body
    have met := readElements_looser (.refl function body) ⟨argv.drop 1, false, []⟩
    rw [stops] at agrees
    cases reads : readElements function body ⟨argv.drop 1, false, []⟩ with
    | ok scan =>
      rw [reads] at agrees
      exact agrees.elim
    | error stop' =>
      rw [reads] at agrees met
      obtain rfl : stop = stop' := agrees
      exact met

/-- `-Pw< a` and `-P -w< a` are the same actions, and `-w<` keeps its argument. -/
theorem grouped_as_separate_start_delete :
    actionsOf (parse (.parseArgs false) .none
          [[0x64], [0x2D, 0x50], [0x2D, 0x77, 0x3C], [0x61]]) =
        actionsOf (parse (.parseArgs false) .none [[0x64], [0x2D, 0x50, 0x77, 0x3C], [0x61]]) ∧
      actionsOf (parse (.parseArgs false) .none [[0x64], [0x2D, 0x50, 0x77, 0x3C], [0x61]]) =
        ([.option (option 'P' "punctuation" .noArg) none,
          .option (option 'w' "start-delete" .requiredArg) (some [0x3C]),
          .noOption [0x61]], none) ∧
      ∀ next, parseArgument (.parseArgs false) .none
          (startParsing [[0x64], [0x2D, 0x77, 0x3C], [0x61]]) = .ok next →
        ∀ pointer ∈ next.kept, Retains .none next pointer :=
  ⟨((@grouped_as_separate [[0x64], [0x2D, 0x50, 0x77, 0x3C], [0x61]] (by decide)).1
      (.parseArgs false) .none (startParsing _) [0x50] 0x77 [0x3C]
      (option 'w' "start-delete" .requiredArg) .start rfl rfl
      (by simpa using ⟨option 'P' "punctuation" .noArg, ⟨by decide, rfl⟩, rfl⟩)
      ⟨by decide, rfl⟩).1,
    by decide,
    fun next returns => (((@grouped_as_separate [[0x64], [0x2D, 0x77, 0x3C], [0x61]]
      (by decide)).1 (.parseArgs false) .none (startParsing _) [] 0x77 [0x3C]
      (option 'w' "start-delete" .requiredArg) .start rfl rfl (by simp) ⟨by decide, rfl⟩).2
      (Or.inl (by decide)) next returns).mpr (Or.inl rfl)⟩

/-- Behind `-Pw<` the marker for the start of a deletion cannot be read. Behind `-P -w<` it can. -/
theorem grouped_argument_freed :
    (parse (.parseArgs false) .none [[0x64], [0x2D, 0x50, 0x77, 0x3C], [0x61]]).map
        (fun state => state.kept.map state.text) = .ok [.error .undefined] ∧
      (parse (.parseArgs false) .none [[0x64], [0x2D, 0x50], [0x2D, 0x77, 0x3C], [0x61]]).map
        (fun state => state.kept.map state.text) = .ok [.ok [0x3C]] := by
  decide

end Dwdiff
