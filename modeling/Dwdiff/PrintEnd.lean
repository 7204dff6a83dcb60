/-
This file models `printEnd` of `doDiff.c` over files that are read through system
calls. Its loop is left when the end of the new token file is recorded, and on
nothing else. As long as no call of `read` on that file fails, every round takes a
word from it or records its end. When a call fails, the end is never recorded: the
readers return as they do at the end of a file, and the loop goes on for ever,
unless one of its rounds stops the program.
-/

import Dwdiff.OpenStream
import Dwdiff.Taking

namespace Dwdiff

open Outcome
open Failure (OfText)

variable {options : Options} {locale : Locale} {state : Printing Source}

/-- Both temporary files of an input can be read. -/
structure InputFile.Reading (file : InputFile Source) : Prop where
  tokens : file.tokens.source.FromFile
  whitespace : file.whitespace.source.FromFile

theorem InputFile.Reading.whitespaceStream {file : InputFile Source} (reading : file.Reading) :
    file.whitespaceStream.source.Keeps file.whitespaceStream.source := by
  unfold InputFile.whitespaceStream
  split
  · exact .string _ _
  · exact reading.whitespace.reading

/-- Nothing more comes from the temporary files of an input. -/
def InputFile.exhausted (file : InputFile Source) : Bool :=
  file.tokens.source.exhausted && file.whitespace.source.exhausted && !file.whitespaceBufferUsed

namespace Opened

/-- `printEnd`, with a number of rounds at which its loop is cut off. -/
def printEnd (options : Options) (locale : Locale) (fuel : Nat) (state : Printing Source) :
    Except Failure (Printing Source) :=
  if options.printCommon then printEndLoop options locale fuel state else .ok state

/-- A number of rounds of the loop of `printEnd`, whether the end is recorded or not. -/
def lastWords (options : Options) (locale : Locale) :
    Nat → Printing Source → Except Failure (Printing Source)
  | 0, state => .ok state
  | count + 1, state => do
    let state ← handleCommonWord options locale true state
    lastWords options locale count (state.step .ending)

/-! ### What a round leaves -/

/-- What a loop over a piece leaves of a stream. -/
abbrev Passes : Stream Source → Stream Source → Prop := Passed Source.Keeps Source.Finished

theorem forPiece_passes {State : Type} {invariant : State → Prop}
    {body : ReadChar → State → Except Failure (Bool × State)}
    (keeps : ∀ char state, invariant state →
      Meets OfText (fun result => invariant result.2) (body char state))
    {stream : Stream Source} (reading : stream.source.Keeps stream.source) {state : State}
    (holds : invariant state) :
    Meets OfText (fun result => Passes stream result.2.1 ∧ invariant result.2.2)
      (forPiece options locale body stream.rounds stream state) :=
  (@Lawful.forPiece _ _ _ _ _ _ _ source_lawful _ reading _ (fun _ => invariant) _
    (fun _ isText => isText) (fun _ _ char state _ => keeps char state) _ (weight_lt_rounds stream)
    _ holds).mono fun _ ⟨passed, _, holds'⟩ => ⟨passed, holds'⟩

theorem setFile_reading {side : Side} {file : InputFile Source}
    (reading : ∀ other, (state.file other).Reading) (isReading : file.Reading) (other : Side) :
    ((state.setFile side file).file other).Reading := by
  cases side with
  | old =>
    cases other with
    | old => exact isReading
    | new => exact reading .new
  | new =>
    cases other with
    | old => exact reading .old
    | new => exact isReading

theorem followLine_gives (sideA sideB : Side) {first : Stream Source}
    {loop : Screen × Stream Source × Bool} (keeps : first.source.Keeps loop.2.1.source) :
    Meets OfText (fun result => first.source.Keeps result.2.1.source)
      (followLine options locale sideA sideB loop) := by
  obtain ⟨screen, stream, valid⟩ := loop
  cases valid with
  | false => exact keeps
  | true =>
    have lines : ∀ char screen, True →
        Meets OfText (fun _ => True) (toNextLine sideB char screen) := by
      intro char screen _
      unfold toNextLine
      split <;> trivial
    exact (forPiece_passes lines (source_lawful.again keeps) trivial).bind
      fun _ gives => source_lawful.trans keeps gives.1.keeps

theorem synchronize_gives (sideA sideB : Side) {first : Stream Source} (char : ReadChar)
    {loop : Screen × Stream Source × Bool} (keeps : first.source.Keeps loop.2.1.source) :
    Meets OfText (fun result => first.source.Keeps result.2.1.source)
      (synchronize options locale sideA sideB char loop) := by
  refine (onlyIf_ofText (printCommonChar_meets options char loop.1) _).bind fun screen _ => ?_
  exact onlyIf_meets (fun _ => @followLine_gives options locale sideA sideB first (screen, loop.2)
    keeps) fun _ => keeps

theorem skipRest_gives (sideB : Side) {first : Stream Source}
    {loop : Screen × Stream Source × Bool} (keeps : first.source.Keeps loop.2.1.source) :
    Meets OfText (fun result => first.source.Keeps result.2.source)
      (skipRest options locale sideB loop) := by
  obtain ⟨screen, stream, valid⟩ := loop
  cases valid with
  | false => exact keeps
  | true =>
    have lines : ∀ char screen, True →
        Meets OfText (fun _ => True) (always (countLines sideB) char screen) :=
      fun _ _ _ => trivial
    exact (forPiece_passes lines (source_lawful.again keeps) trivial).bind
      fun _ gives => source_lawful.trans keeps gives.1.keeps

/-- Whitespace is read from files that can be read on, and tokens are not touched. -/
theorem afterWhitespace_gives {side : Side} {stream : Stream Source}
    (reading : ∀ other, (state.file other).Reading)
    (keeps : (state.file side).whitespaceStream.source.Keeps stream.source) (other : Side) :
    ((state.afterWhitespace options locale side stream).file other).Reading ∧
      ((state.afterWhitespace options locale side stream).file other).tokens =
        (state.file other).tokens := by
  unfold Printing.afterWhitespace
  dsimp only
  split
  · exact ⟨reading other, rfl⟩
  · next unused =>
    rw [InputFile.whitespaceStream, if_neg unused] at keeps
    have isReading : InputFile.Reading { state.file side with whitespace := stream } :=
      ⟨(reading side).tokens, (reading side).whitespace.keeps keeps⟩
    refine ⟨setFile_reading reading isReading other, ?_⟩
    cases side <;> cases other <;> rfl

theorem afterWhitespace_other (side : Side) (stream : Stream Source) :
    (state.afterWhitespace options locale side stream).file side.other =
      state.file side.other := by
  unfold Printing.afterWhitespace
  dsimp only
  split
  · rfl
  · cases side <;> rfl

theorem handleSynchronizedNextWhitespace_gives (printNew : Bool)
    (reading : ∀ side, (state.file side).Reading) :
    Meets OfText (fun after => ∀ side, (after.file side).Reading ∧
        (after.file side).tokens = (state.file side).tokens)
      (handleSynchronizedNextWhitespace options locale printNew state) := by
  unfold handleSynchronizedNextWhitespace
  dsimp only
  generalize (if printNew then Side.new else Side.old) = sideA
  have bodies : ∀ char loop, (state.file sideA.other).whitespaceStream.source.Keeps
      loop.2.1.source → Meets OfText (fun result =>
        (state.file sideA.other).whitespaceStream.source.Keeps result.2.2.1.source)
      (always (synchronize options locale sideA sideA.other) char loop) := fun char loop kept =>
    (synchronize_gives sideA sideA.other char kept).bind fun _ kept' => kept'
  refine (forPiece_passes bodies (reading sideA).whitespaceStream
    (reading sideA.other).whitespaceStream).bind ?_
  rintro ⟨pieceEnd, whitespaceA, loop⟩ ⟨passed, kept⟩
  refine (skipRest_gives sideA.other kept).bind ?_
  rintro ⟨screen, whitespaceB⟩ keptB side
  have first := @afterWhitespace_gives options locale { state with screen := screen } sideA
    whitespaceA reading passed.keeps
  have second := @afterWhitespace_gives options locale
    (({ state with screen := screen } : Printing Source).afterWhitespace options locale sideA
      whitespaceA) sideA.other whitespaceB (fun other => (first other).1)
    (by rw [afterWhitespace_other]; exact keptB) side
  exact ⟨second.1, second.2.trans (first side).2⟩

theorem handleNextToken_gives (side : Side) (print : Bool) (mode : Mode)
    (reading : ∀ other, (state.file other).Reading) :
    Meets OfText (fun after => (∀ other, (after.file other).Reading) ∧
        Passes (state.file side).tokens (after.file side).tokens ∧
        (after.file side.other).tokens = (state.file side.other).tokens)
      (handleNextToken options locale side print mode state) := by
  have bodies : ∀ char loop, True → Meets OfText (fun _ => True)
      (always (handleTokenRound options print mode) char loop) := fun char loop _ =>
    ((handleTokenChar_meets options print mode char loop.2).bind fun _ _ => trivial :
      Meets _ (fun _ => True) (handleTokenRound options print mode char loop)).bind
      fun _ _ => trivial
  unfold handleNextToken
  refine (forPiece_passes bodies (reading side).tokens.reading trivial).bind ?_
  rintro ⟨pieceEnd, stream, empty, screen⟩ ⟨passed, -⟩
  refine (onlyIf_ofText (printParaDelim_meets options locale mode screen) _).bind fun screen _ => ?_
  have isReading : InputFile.Reading { state.file side with tokens := stream } :=
    ⟨(reading side).tokens.keeps passed.keeps, (reading side).whitespace⟩
  refine ⟨@setFile_reading { state with screen := screen } side _ reading isReading, ?_, ?_⟩
  · cases side <;> exact passed
  · cases side <;> rfl

/-- One round of the loop of `printEnd`. -/
theorem handleCommonWord_gives (reading : ∀ side, (state.file side).Reading) :
    Meets OfText (fun after => (∀ side, (after.file side).Reading) ∧
        Passes state.newFile.tokens after.newFile.tokens)
      (handleCommonWord options locale true state) := by
  unfold handleCommonWord
  refine (handleSynchronizedNextWhitespace_gives _ reading).bind fun spaced gives => ?_
  refine (@handleNextToken_gives options locale { spaced with lastWasDelete := false } .new true
    .common fun side => (gives side).1).bind fun taken ⟨isReading, passed, _⟩ => ?_
  refine (handleNextToken_gives .old false .oldCommon isReading).mono
    fun after ⟨isReading', _, same⟩ => ⟨isReading', ?_⟩
  have sameBefore : spaced.newFile.tokens = state.newFile.tokens := (gives .new).2
  have sameAfter : after.newFile.tokens = taken.newFile.tokens := same
  rw [sameAfter, ← sameBefore]
  exact passed

/-- Without a failing call, every round takes something or finds the end. -/
theorem printEndLoop_ends {fuel : Nat} (reading : ∀ side, (state.file side).Reading)
    (succeeds : ¬ state.newFile.tokens.source.Fails)
    (enough : state.newFile.tokens.weight + 1 < fuel) :
    Meets OfText (fun _ => True) (printEndLoop options locale fuel state) := by
  induction fuel generalizing state with
  | zero => exact absurd enough (Nat.not_lt_zero _)
  | succ fuel inductionHypothesis =>
    obtain ⟨opened, isFile, -⟩ := (reading .new).tokens
    unfold printEndLoop
    rw [show StreamVtable.sfeof state.newFile.tokens = _ from sfeof_file isFile, ok_bind]
    split
    · trivial
    · refine (handleCommonWord_gives reading).bind ?_
      rintro after ⟨isReading, passed⟩
      have succeeds' : ¬ after.newFile.tokens.source.Fails :=
        fun fails => succeeds (passed.keeps.fails.mp fails)
      rcases passed.less with less | finished
      · exact @inductionHypothesis (after.step .ending) isReading succeeds'
          (Nat.lt_of_lt_of_le (Nat.add_lt_add_right less 1) (Nat.le_of_lt_succ enough))
      · obtain ⟨fuel, rfl⟩ := Nat.exists_eq_succ_of_ne_zero (by omega : fuel ≠ 0)
        have ended : StreamVtable.sfeof (after.step .ending).newFile.tokens = .ok true :=
          sfeof_of_finished (isReading .new).tokens succeeds' finished
        rw [printEndLoop, ended]
        trivial

/-- With a failing call, the loop is not left: it makes one round after another. -/
theorem printEndLoop_of_fails (fuel : Nat) (reading : ∀ side, (state.file side).Reading)
    (fails : state.newFile.tokens.source.Fails) :
    printEndLoop options locale fuel state =
      (lastWords options locale fuel state >>= fun _ => .error .diverges) := by
  induction fuel generalizing state with
  | zero => rfl
  | succ fuel inductionHypothesis =>
    have unended := sfeof_of_fails (reading .new).tokens fails
    have gives := @handleCommonWord_gives options locale state reading
    rw [printEndLoop, show StreamVtable.sfeof state.newFile.tokens = _ from unended, ok_bind,
      if_neg Bool.false_ne_true, lastWords]
    cases round : handleCommonWord options locale true state with
    | error failure => rfl
    | ok after =>
      rw [round] at gives
      exact @inductionHypothesis (after.step .ending) gives.1 (gives.2.keeps.fails.mpr fails)

theorem lastWords_meets (count : Nat) (reading : ∀ side, (state.file side).Reading) :
    Meets OfText (fun _ => True) (lastWords options locale count state) := by
  induction count generalizing state with
  | zero => trivial
  | succ count inductionHypothesis =>
    exact (handleCommonWord_gives reading).bind fun after gives =>
      @inductionHypothesis (after.step .ending) gives.1

theorem meets_ne_diverges {Value : Type} {outcome : Except Failure Value} {post : Value → Prop}
    (meets : Meets OfText post outcome) : outcome ≠ .error .diverges := by
  rintro rfl
  rcases meets with same | same | same | same <;> cases same

/-! ### Files from which nothing comes -/

theorem afterWhitespace_same {side : Side}
    (unused : (state.file side).whitespaceBufferUsed = false) (other : Side) :
    (state.afterWhitespace options locale side (state.file side).whitespaceStream).file other =
      state.file other := by
  rw [Printing.afterWhitespace, InputFile.whitespaceStream]
  simp only [if_neg (ne_true_of_eq_false unused)]
  cases side <;> cases other <;> rfl

theorem lastWords_add (first second : Nat) (state : Printing Source) :
    lastWords options locale (first + second) state =
      (lastWords options locale first state >>= lastWords options locale second) := by
  induction first generalizing state with
  | zero => rw [Nat.zero_add]; rfl
  | succ first inductionHypothesis =>
    rw [Nat.succ_add, lastWords, lastWords]
    cases handleCommonWord options locale true state with
    | error failure => rfl
    | ok after => exact inductionHypothesis (after.step .ending)

section Exhausted

variable (singleByte : options.utf8Mode = false)

include singleByte

theorem handleSynchronizedNextWhitespace_exhausted
    (isExhausted : ∀ side, (state.file side).exhausted = true) (printNew : Bool) :
    ∃ after, handleSynchronizedNextWhitespace options locale printNew state = .ok after ∧
      ∀ side, after.file side = state.file side := by
  have unused : ∀ side, (state.file side).whitespaceBufferUsed = false := fun side => by
    have exhausted := isExhausted side
    rw [InputFile.exhausted, Bool.and_eq_true, Bool.not_eq_true'] at exhausted
    exact exhausted.2
  have noWhitespace : ∀ side, (state.file side).whitespaceStream.source.exhausted = true := by
    intro side
    have exhausted := isExhausted side
    rw [InputFile.exhausted, Bool.and_eq_true, Bool.and_eq_true] at exhausted
    rw [InputFile.whitespaceStream, unused side]
    exact exhausted.1.2
  unfold handleSynchronizedNextWhitespace
  dsimp only
  generalize (if printNew then Side.new else Side.old) = sideA
  rw [forPiece_exhausted singleByte (noWhitespace sideA), ok_bind]
  dsimp only
  rw [skipRest, forPiece_exhausted singleByte (noWhitespace sideA.other), ok_bind, ok_bind]
  refine ⟨_, rfl, fun side => ?_⟩
  have first := @afterWhitespace_same options locale state sideA (unused sideA)
  have second := @afterWhitespace_same options locale
    (state.afterWhitespace options locale sideA (state.file sideA).whitespaceStream) sideA.other
    (by rw [first]; exact unused _) side
  rw [first] at second
  exact second.trans (first side)

theorem handleNextToken_exhausted {side : Side} (isExhausted : (state.file side).exhausted = true)
    (print : Bool) (mode : Mode) :
    ∃ after, handleNextToken options locale side print mode state = .ok after ∧
      ∀ other, after.file other = state.file other := by
  rw [InputFile.exhausted, Bool.and_eq_true, Bool.and_eq_true] at isExhausted
  rw [handleNextToken, forPiece_exhausted singleByte isExhausted.1.1, ok_bind]
  refine ⟨_, rfl, fun other => ?_⟩
  cases side <;> cases other <;> rfl

/-- When nothing comes from any of the four files, a round leaves them as they are. -/
theorem handleCommonWord_exhausted (isExhausted : ∀ side, (state.file side).exhausted = true) :
    ∃ after, handleCommonWord options locale true state = .ok after ∧
      ∀ side, after.file side = state.file side := by
  obtain ⟨spaced, spaces, same⟩ := @handleSynchronizedNextWhitespace_exhausted options locale state
    singleByte isExhausted (!state.lastWasDelete)
  have same' : ∀ side, ({ spaced with lastWasDelete := false } : Printing Source).file side =
      state.file side := fun side => by
    rw [← same side]
    cases side <;> rfl
  obtain ⟨taken, takes, same''⟩ := @handleNextToken_exhausted options locale
    { spaced with lastWasDelete := false } singleByte .new (by rw [same', isExhausted]) true .common
  obtain ⟨after, takes', stays⟩ := @handleNextToken_exhausted options locale taken singleByte .old
    (by rw [same'', same', isExhausted]) false .oldCommon
  refine ⟨after, ?_, fun side => by rw [stays, same'', same']⟩
  rw [handleCommonWord, spaces, ok_bind]
  dsimp only
  rw [takes, ok_bind, takes']

theorem lastWords_exhausted (count : Nat)
    (isExhausted : ∀ side, (state.file side).exhausted = true) :
    ∃ after, lastWords options locale count state = .ok after := by
  induction count generalizing state with
  | zero => exact ⟨state, rfl⟩
  | succ count inductionHypothesis =>
    obtain ⟨after, returns, same⟩ := @handleCommonWord_exhausted options locale state singleByte
      isExhausted
    rw [lastWords, returns, ok_bind]
    refine inductionHypothesis fun side => ?_
    rw [← isExhausted side, ← same side]
    cases side <;> rfl

/-- Rounds that have come to such a state go on for ever. -/
theorem lastWords_ok_of_exhausted {first : Nat} {reached : Printing Source}
    (reaches : lastWords options locale first state = .ok reached)
    (isExhausted : ∀ side, (reached.file side).exhausted = true) (count : Nat) :
    ∃ after, lastWords options locale count state = .ok after := by
  obtain ⟨after, returns⟩ := @lastWords_exhausted options locale reached singleByte count
    isExhausted
  have whole : lastWords options locale (count + first) state = .ok after := by
    rw [Nat.add_comm, lastWords_add, reaches]
    exact returns
  rw [lastWords_add] at whole
  obtain ⟨between, returns', -⟩ := bind_eq_ok.mp whole
  exact ⟨between, returns'⟩

end Exhausted

/-! ### When the loop ends -/

/-- `printEnd` ends exactly if it does not print, if no call of `read` on the new token file fails
before its end, or if one of the rounds stops the program. -/
theorem printEnd_terminates_iff (options : Options) (locale : Locale) (state : Printing Source)
    (reading : ∀ side, (state.file side).Reading) :
    (∃ fuel, printEnd options locale fuel state ≠ .error .diverges) ↔
      options.printCommon = false ∨ ¬ state.newFile.tokens.source.Fails ∨
        ∃ count failure, lastWords options locale count state = .error failure := by
  unfold printEnd
  cases prints : options.printCommon with
  | false => exact ⟨fun _ => Or.inl rfl, fun _ => ⟨0, nofun⟩⟩
  | true =>
    simp only [if_true, Bool.true_eq_false, false_or]
    by_cases fails : state.newFile.tokens.source.Fails
    · simp only [fails, not_true_eq_false, false_or, printEndLoop_of_fails _ reading fails]
      refine exists_congr fun count => ?_
      have meets := meets_ne_diverges (@lastWords_meets options locale state count reading)
      cases isEnd : lastWords options locale count state with
      | ok after => simp
      | error failure =>
        rw [isEnd] at meets
        exact ⟨fun _ => ⟨failure, rfl⟩, fun _ => meets⟩
    · refine ⟨fun _ => Or.inl fails, fun _ => ?_⟩
      exact ⟨_, meets_ne_diverges (printEndLoop_ends reading fails (Nat.lt_succ_self _))⟩

/-- A system that delivers what is asked for, and one whose calls fail. -/
def delivering : System := ⟨fun _ => .bytes fileBufferSize, 0, fun _ _ => nofun⟩

def refusing : System := ⟨fun _ => .failed 5, 0, fun _ _ => nofun⟩

/-- The temporary files of a text with one word, behind a system for each. -/
def oneWord (tokens : System) : InputFile Source where
  diffTokens := [0]
  tokens := .new (.file (.fileWrapFD tokens [0x61, 0] .read))
  whitespace := .new (.file (.fileWrapFD delivering [0, 0] .read))
  lastPrinted := 0
  whitespaceBuffer := []
  whitespaceBufferUsed := false

/-- Two files with the same word, before anything was printed. -/
def sameWord (newTokens : System) : Printing Source where
  oldFile := oneWord delivering
  newFile := oneWord newTokens
  screen := ⟨1, 1, true, false, []⟩
  lastWasDelete := false
  differences := 0
  statistics := ⟨0, 0, 0, 0⟩
  baseHashMax := 1
  hashtable := .empty
  events := []
  steps := []

theorem sameWord_reading (newTokens : System) (side : Side) :
    ((sameWord newTokens).file side).Reading := by
  have fresh : ∀ system disk, (Source.file (.fileWrapFD system disk .read)).FromFile :=
    fun system disk => ⟨_, rfl, rfl, Nat.le_refl _, fun error => absurd rfl error⟩
  cases side <;> exact ⟨fresh _ _, fresh _ _⟩

/-- The word is printed, and the loop ends. -/
theorem printEnd_terminates_delivering :
    ∃ fuel, printEnd defaultOptions cLocale fuel (sameWord delivering) ≠ .error .diverges :=
  (printEnd_terminates_iff defaultOptions cLocale _ (sameWord_reading delivering)).mpr
    (Or.inr (Or.inl (OpenFile.not_fails_of_obliging (fun _ => Or.inr ⟨_, rfl⟩) rfl)))

/-- When the new token file cannot be read, the loop never ends. -/
theorem printEnd_never_ends :
    ¬ ∃ fuel, printEnd defaultOptions cLocale fuel (sameWord refusing) ≠ .error .diverges := by
  rintro ⟨fuel, ends⟩
  refine ends ?_
  have fails : (sameWord refusing).newFile.tokens.source.Fails :=
    OpenFile.fails_of_answer rfl rfl rfl
  have exhausted : (match lastWords defaultOptions cLocale 3 (sameWord refusing) with
      | .ok reached => reached.oldFile.exhausted && reached.newFile.exhausted
      | .error _ => false) = true := by decide +kernel
  have rounds : ∃ after, lastWords defaultOptions cLocale fuel (sameWord refusing) = .ok after := by
    cases reaches : lastWords defaultOptions cLocale 3 (sameWord refusing) with
    | error failure =>
      rw [reaches] at exhausted
      contradiction
    | ok reached =>
      rw [reaches] at exhausted
      obtain ⟨isOld, isNew⟩ := Bool.and_eq_true_iff.mp exhausted
      exact lastWords_ok_of_exhausted rfl reaches (fun side => match side with
        | .old => isOld
        | .new => isNew) fuel
  obtain ⟨after, returns⟩ := rounds
  have prints : defaultOptions.printCommon = true := rfl
  rw [printEnd, if_pos prints, printEndLoop_of_fails fuel (sameWord_reading refusing) fails,
    returns]
  rfl

end Opened

end Dwdiff
