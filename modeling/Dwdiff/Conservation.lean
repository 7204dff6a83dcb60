/-
This file proves that a run of `doDiff` handles every word of both files exactly
once and in order, and that the words it handles as common are the same on both
sides. The printing functions only advance two counters, so this rests on the
scripts of the engine, on the trimming, on the recursion into sub-ranges and on
the whitespace that is read ahead all staying in step.
-/

import Dwdiff.Program
import Dwdiff.Words

namespace Dwdiff

open Diff Outcome

variable {old new : List Nat} {handled : List Handling}

/-! ### How words are handled -/

/-- What is done with a word, or with a word of each file. -/
inductive Handling where
  | common
  | deleted
  | added
  deriving DecidableEq, Repr

/-- The calls of `handleNextToken` for it. -/
def Handling.calls : Handling → List (Side × Mode)
  | .common => commonCalls
  | .deleted => [(.old, .del)]
  | .added => [(.new, .add)]

/-- The mode in which a file's word is handled, if it is one of that file. -/
def Handling.mode : Side → Handling → Option Mode
  | .old, .common => some .oldCommon
  | .old, .deleted => some .del
  | .old, .added => none
  | .new, .common => some .common
  | .new, .deleted => none
  | .new, .added => some .add

/-- The modes of the words of a file, in order. -/
def modesOf (side : Side) (handled : List Handling) : List Mode :=
  handled.filterMap (Handling.mode side)

/-- The words of both files, one by one: common words are the same. -/
inductive Aligns : List Nat → List Nat → List Handling → Prop where
  | nil : Aligns [] [] []
  | common {id : Nat} {old new : List Nat} {handled : List Handling}
      (rest : Aligns old new handled) : Aligns (id :: old) (id :: new) (.common :: handled)
  | deleted {id : Nat} {old new : List Nat} {handled : List Handling}
      (rest : Aligns old new handled) : Aligns (id :: old) new (.deleted :: handled)
  | added {id : Nat} {old new : List Nat} {handled : List Handling}
      (rest : Aligns old new handled) : Aligns old (id :: new) (.added :: handled)

theorem Aligns.append {old' new' : List Nat} {handled' : List Handling}
    (first : Aligns old new handled) (second : Aligns old' new' handled') :
    Aligns (old ++ old') (new ++ new') (handled ++ handled') := by
  induction first with
  | nil => exact second
  | common _ inductionHypothesis => exact .common inductionHypothesis
  | deleted _ inductionHypothesis => exact .deleted inductionHypothesis
  | added _ inductionHypothesis => exact .added inductionHypothesis

theorem Aligns.all_deleted (old : List Nat) :
    Aligns old [] (List.replicate old.length .deleted) := by
  induction old with
  | nil => exact .nil
  | cons id old inductionHypothesis => exact .deleted inductionHypothesis

theorem Aligns.all_added (new : List Nat) : Aligns [] new (List.replicate new.length .added) := by
  induction new with
  | nil => exact .nil
  | cons id new inductionHypothesis => exact .added inductionHypothesis

theorem Aligns.length_old (aligns : Aligns old new handled) :
    (modesOf .old handled).length = old.length := by
  induction aligns with
  | nil => rfl
  | common _ inductionHypothesis => exact congrArg (· + 1) inductionHypothesis
  | deleted _ inductionHypothesis => exact congrArg (· + 1) inductionHypothesis
  | added _ inductionHypothesis => exact inductionHypothesis

theorem Aligns.length_new (aligns : Aligns old new handled) :
    (modesOf .new handled).length = new.length := by
  induction aligns with
  | nil => rfl
  | common _ inductionHypothesis => exact congrArg (· + 1) inductionHypothesis
  | deleted _ inductionHypothesis => exact inductionHypothesis
  | added _ inductionHypothesis => exact congrArg (· + 1) inductionHypothesis

@[simp] theorem modesOf_append (side : Side) (handled more : List Handling) :
    modesOf side (handled ++ more) = modesOf side handled ++ modesOf side more :=
  List.filterMap_append

/-- All the calls of `handleNextToken`, in order. -/
def callsOf (handled : List Handling) : List (Side × Mode) := handled.flatMap Handling.calls

@[simp] theorem callsOf_append (handled more : List Handling) :
    callsOf (handled ++ more) = callsOf handled ++ callsOf more := List.flatMap_append

/-- The words of a change, in the order they are printed in. -/
def changeHandled (reverseDeleteAdd : Bool) (deleted inserted : Nat) : List Handling :=
  if reverseDeleteAdd then List.replicate inserted .added ++ List.replicate deleted .deleted
  else List.replicate deleted .deleted ++ List.replicate inserted .added

theorem callsOf_changeHandled (reverseDeleteAdd : Bool) (deleted inserted : Nat) :
    callsOf (changeHandled reverseDeleteAdd deleted inserted) =
      changeCalls reverseDeleteAdd deleted inserted := by
  cases reverseDeleteAdd <;>
    simp [changeHandled, changeCalls, callsOf, Handling.calls, List.flatMap_replicate]

theorem modesOf_changeHandled (reverseDeleteAdd : Bool) (deleted inserted : Nat) (side : Side) :
    modesOf side (changeHandled reverseDeleteAdd deleted inserted) =
      pick (List.replicate deleted .del) (List.replicate inserted .add) side := by
  cases reverseDeleteAdd <;> cases side <;>
    simp [changeHandled, modesOf, Handling.mode, pick, List.filterMap_replicate]

theorem aligns_changeHandled (reverseDeleteAdd : Bool) (old new : List Nat) :
    Aligns old new (changeHandled reverseDeleteAdd old.length new.length) := by
  cases reverseDeleteAdd with
  | true =>
    have aligns := (Aligns.all_added new).append (Aligns.all_deleted old)
    rwa [List.append_nil] at aligns
  | false =>
    have aligns := (Aligns.all_deleted old).append (Aligns.all_added new)
    rwa [List.append_nil] at aligns

/-! ### A run -/

/-- The tracks between two steps. -/
def tracksAt (handled : List Handling) (p q : Int) : Side → Track :=
  pick ⟨modesOf .old handled, false, false, p⟩ ⟨modesOf .new handled, false, false, q⟩

theorem tracksAt_fresh (handled : List Handling) (p q : Int) (side : Side) :
    (tracksAt handled p q side).Fresh := by
  cases side <;> exact ⟨rfl, rfl⟩

theorem tracksAt_modes (handled : List Handling) (p q : Int) (side : Side) :
    (tracksAt handled p q side).modes = modesOf side handled := by
  cases side <;> rfl

/-- The tracks after one more common word. -/
theorem tracksAt_common (handled : List Handling) (p q : Int) :
    (fun side => { tracksAt handled p q side with
      modes := (tracksAt handled p q side).modes ++ [commonMode side] }) =
      tracksAt (handled ++ [.common]) p q := by
  funext side
  cases side <;> simp [tracksAt, pick, commonMode, modesOf, Handling.mode]

section Conserved

variable (options : Options) (locale : Locale) (texts : Side → Text) (hashMax : Nat)
  (extra : Printing → Prop) {state : Printing}

/-- The first `p` words of the old file and the first `q` words of the new one were handled. -/
def Conserved (p q : Int) (state : Printing) : Prop :=
  ∃ handled, Aligns ((texts .old).ids.take p.toNat) ((texts .new).ids.take q.toNat) handled ∧
    (modesOf .old handled).length = p ∧ (modesOf .new handled).length = q ∧
    Stands options locale texts hashMax extra (tracksAt handled p q)
      (callsOf handled) state

variable {options : Options} {locale : Locale} {texts : Side → Text} {hashMax : Nat}
  {extra during : Printing → Prop}

/-- One more word of both files. -/
theorem aligns_take_common {p q : Nat} (aligns : Aligns (old.take p) (new.take q) handled)
    (below0 : p < old.length) (below1 : q < new.length) (same : old[p] = new[q]) :
    Aligns (old.take (p + 1)) (new.take (q + 1)) (handled ++ [.common]) := by
  rw [List.take_succ_eq_append_getElem below0, List.take_succ_eq_append_getElem below1, same]
  exact aligns.append (.common .nil)

/-- The words of a change of both files. -/
theorem aligns_take_change {old new : List Nat} {p q d k : Nat} {handled : List Handling}
    (aligns : Aligns (old.take p) (new.take q) handled) (below0 : p + d ≤ old.length)
    (below1 : q + k ≤ new.length) (reverseDeleteAdd : Bool) :
    Aligns (old.take (p + d)) (new.take (q + k))
      (handled ++ changeHandled reverseDeleteAdd d k) := by
  have length0 : ((old.drop p).take d).length = d := by simp; omega
  have length1 : ((new.drop q).take k).length = k := by simp; omega
  have changed := aligns_changeHandled reverseDeleteAdd ((old.drop p).take d) ((new.drop q).take k)
  rw [length0, length1] at changed
  rw [List.take_add, List.take_add]
  exact aligns.append changed

theorem codeAt_getElem {words : List Nat} {place : Int} (nonneg : 0 ≤ place)
    (below : place < words.length) :
    codeAt words place = words.get ⟨place.toNat, by omega⟩ := by
  rw [codeAt, List.getD_eq_getElem?_getD, List.getElem?_eq_getElem (by omega)]
  rfl

/-- A common word is a step of a run. -/
theorem Conserved.common (upholds : Upholds options locale texts hashMax extra during) {p q : Int}
    (conserved : Conserved options locale texts hashMax extra p q state)
    (below0 : p < (texts .old).ids.length) (below1 : q < (texts .new).ids.length)
    (same : codeAt (texts .old).ids p = codeAt (texts .new).ids q) :
    Meets Failure.OfText (Conserved options locale texts hashMax extra (p + 1) (q + 1))
      (printCommonWord options locale state) := by
  obtain ⟨handled, aligns, isP, isQ, stands⟩ := conserved
  rw [codeAt_getElem (by omega) below0, codeAt_getElem (by omega) below1] at same
  have sameIds : (texts .old).ids[(modesOf .old handled).length]? =
      (texts .new).ids[(modesOf .new handled).length]? := by
    rw [List.getElem?_eq_getElem (by omega), List.getElem?_eq_getElem (by omega)]
    simp only [← isP, ← isQ, Int.toNat_natCast] at same
    exact congrArg some same
  have lengths : ∀ side, (tracksAt handled p q side).modes.length ≤ (texts side).ids.length := by
    intro side
    rw [tracksAt_modes]
    cases side <;> omega
  refine (handleCommonWord_stands upholds stands (tracksAt_fresh handled p q) lengths
    sameIds).bind fun state' printed => ?_
  rw [tracksAt_common] at printed
  have advanced := (printed.advance .new rfl (upholds.advance .new).1).advance .old rfl
    (upholds.advance .old).1
  rw [tracksAt, update_pick_new, update_pick_old] at advanced
  have aligns' := aligns_take_common aligns (by omega) (by omega) same
  have isP' : ((modesOf .old (handled ++ [.common])).length : Int) = p + 1 := by
    rw [modesOf_append, List.length_append]
    show ((modesOf .old handled).length + 1 : Int) = p + 1
    omega
  have isQ' : ((modesOf .new (handled ++ [.common])).length : Int) = q + 1 := by
    rw [modesOf_append, List.length_append]
    show ((modesOf .new handled).length + 1 : Int) = q + 1
    omega
  refine ⟨handled ++ [.common], ?_, isP', isQ', ?_, ?_⟩
  · rwa [show p.toNat + 1 = (p + 1).toNat by omega, show q.toNat + 1 = (q + 1).toNat by omega]
      at aligns'
  · rw [callsOf_append]
    exact advanced.1.congr rfl rfl rfl rfl
  · refine upholds.stepped advanced.1 (tracksAt_fresh _ _ _) ?_ advanced.2
    intro side
    cases side with
    | old => exact isP'.symm
    | new => exact isQ'.symm

/-- The words of a change are a step of a run. -/
theorem Conserved.difference (upholds : Upholds options locale texts hashMax extra during)
    {command : Command} {change : Change} (suits : Suits command change)
    (below0 : change.line0 + (wordChange command change).deleted ≤ (texts .old).ids.length)
    (below1 : change.line1 + (wordChange command change).inserted ≤ (texts .new).ids.length)
    (conserved : Conserved options locale texts hashMax extra change.line0 change.line1 state) :
    Meets Failure.OfText (Conserved options locale texts hashMax extra
        (change.line0 + (wordChange command change).deleted)
        (change.line1 + (wordChange command change).inserted))
      (printDifference options locale command change state) := by
  obtain ⟨handled, aligns, isP, isQ, stands⟩ := conserved
  obtain ⟨deleted, inserted, line0, line1⟩ := suits.words
  refine (@printDifference_stands _ _ _ _ _ _ _ _ upholds (fun side => modesOf side handled) command
    change stands suits isP isQ below0 below1).mono ?_
  rintro final ⟨reverseDeleteAdd, printed⟩
  have aligns' := @aligns_take_change _ _ _ _ (wordChange command change).deleted.toNat
    (wordChange command change).inserted.toNat _ aligns (by omega) (by omega) reverseDeleteAdd
  refine ⟨handled ++ changeHandled reverseDeleteAdd (wordChange command change).deleted.toNat
    (wordChange command change).inserted.toNat, ?_, ?_, ?_, ?_⟩
  · rwa [← Int.toNat_add (by omega) deleted, ← Int.toNat_add (by omega) inserted] at aligns'
  · rw [modesOf_append, modesOf_changeHandled, pick, List.length_append, List.length_replicate]
    push_cast
    omega
  · rw [modesOf_append, modesOf_changeHandled, pick, List.length_append, List.length_replicate]
    push_cast
    omega
  · rw [callsOf_append, callsOf_changeHandled]
    rw [behind, line0, line1] at printed
    rw [tracksAt, modesOf_append, modesOf_append, modesOf_changeHandled, modesOf_changeHandled]
    exact printed

/-- The description of the files, with what is upheld, is kept by every step. -/
theorem conserved_keeps (upholds : Upholds options locale texts hashMax extra during)
    {allowed : Failure → Prop} (ofText : ∀ failure : Failure, failure.OfText → allowed failure) :
    Keeps options locale (texts .old).ids (texts .new).ids hashMax allowed
      (Conserved options locale texts hashMax extra) where
  nonneg := fun ⟨_, _, isP, isQ, _⟩ => by omega
  oldTokens := fun ⟨_, _, _, _, stands⟩ => (stands.1.files .old).ids
  newTokens := fun ⟨_, _, _, _, stands⟩ => (stands.1.files .new).ids
  hashMax := fun ⟨_, _, _, _, stands⟩ => stands.1.hashMax
  hashtable := fun ⟨_, _, _, _, stands⟩ => stands.1.hashtable
  printed := fun ⟨_, _, _, _, stands⟩ => (stands.1.files .new).printed
  marked := fun marks ⟨handled, aligns, isP, isQ, stands⟩ =>
    ⟨handled, aligns, isP, isQ, stands.1.onScreen _, upholds.marked marks stands.2⟩
  noticed := fun ⟨handled, aligns, isP, isQ, stands⟩ =>
    ⟨handled, aligns, isP, isQ, stands.1.congr rfl rfl rfl rfl, upholds.noticed stands.2⟩
  common := fun conserved below0 below1 same =>
    (conserved.common upholds below0 below1 same).widen ofText
  difference := fun suits below0 below1 conserved =>
    (Conserved.difference upholds suits below0 below1 conserved).widen ofText

/-! ### The end of a run -/

/-- Every word was handled, and the end of both files was found. -/
def Finished (options : Options) (locale : Locale) (texts : Side → Text) (hashMax : Nat)
    (extra : Printing → Prop) (state : Printing) : Prop :=
  ∃ handled, ∃ p q : Int, (p ≤ (texts .old).ids.length ∧ q ≤ (texts .new).ids.length) ∧
    Aligns (texts .old).ids (texts .new).ids handled ∧
    Stands options locale texts hashMax extra (tracksAt (handled ++ [.common]) p q)
      (callsOf (handled ++ [.common])) state

/-- The loop of `printEnd`. The induction is on the number of words that are left; one more round
reads the whitespace behind the last word and finds the end of the tokens. -/
theorem printEndLoop_meets (upholds : Upholds options locale texts hashMax extra during)
    (prints : options.printCommon = true) (count : Nat) :
    ∀ {fuel : Nat} {handled : List Handling} {p q : Int} {a b : Nat} {state : Printing},
      p ≤ (texts .old).ids.length ∧ q ≤ (texts .new).ids.length →
      Aligns ((texts .old).ids.take a) ((texts .new).ids.take b) handled →
      (modesOf .old handled).length = a → (modesOf .new handled).length = b →
      a + count = (texts .old).ids.length → b + count = (texts .new).ids.length →
      SameOn (codeAt (texts .old).ids) (codeAt (texts .new).ids) a b count →
      Stands options locale texts hashMax extra (tracksAt handled p q)
        (callsOf handled) state →
      count + 2 ≤ fuel →
      Meets Failure.OfText (Finished options locale texts hashMax extra)
        (printEndLoop options locale fuel state) := by
  -- One round, from any state in which the next words are the same.
  have round : ∀ {handled : List Handling} {p q : Int} {state : Printing},
      (modesOf .old handled).length ≤ (texts .old).ids.length →
      (modesOf .new handled).length ≤ (texts .new).ids.length →
      (texts .old).ids[(modesOf .old handled).length]? =
        (texts .new).ids[(modesOf .new handled).length]? →
      Stands options locale texts hashMax extra (tracksAt handled p q)
        (callsOf handled) state →
      state.newFile.tokens.eof ≠ .hit ∧
      Meets Failure.OfText (fun final => Stands options locale texts hashMax extra
          (tracksAt (handled ++ [.common]) p q) (callsOf (handled ++ [.common]))
          (final.step .ending))
        (handleCommonWord options locale true state) := by
    intro handled p q state le0 le1 same stands
    refine ⟨?_, ?_⟩
    · show ¬ (state.file .new).tokens.eof = .hit
      rw [(stands.1.files .new).tokens.eof_iff, (texts .new).tokens_length]
      exact Nat.not_lt_of_le le1
    · have printed := handleCommonWord_stands upholds stands (tracksAt_fresh handled p q)
        (fun side => by cases side with | old => exact le0 | new => exact le1) same
      rw [tracksAt_common, prints] at printed
      refine printed.mono fun final stands' => ?_
      rw [callsOf_append]
      exact ⟨stands'.1.congr rfl rfl rfl rfl, upholds.ended stands'.2⟩
  induction count with
  | zero =>
    intro fuel handled p q a b state below aligns isA isB end0 end1 same stands enough
    obtain ⟨fuel, rfl⟩ : ∃ more, fuel = more + 2 := ⟨fuel - 2, by omega⟩
    rw [add_zero] at end0 end1
    obtain ⟨more, prints⟩ := round (by omega) (by omega)
      (by rw [List.getElem?_eq_none (by omega), List.getElem?_eq_none (by omega)]) stands
    rw [printEndLoop_succ, if_neg more]
    refine prints.bind fun state' stands' => ?_
    have ended : (state'.step .ending).newFile.tokens.eof = .hit := by
      rw [show (state'.step .ending).newFile = (state'.step .ending).file .new from rfl,
        (stands'.1.files .new).tokens.eof_iff, (texts .new).tokens_length, tracksAt_modes,
        modesOf_append, List.length_append]
      show (texts .new).ids.length < (modesOf .new handled).length + 1
      omega
    rw [printEndLoop_succ, if_pos ended]
    rw [List.take_of_length_le (by omega), List.take_of_length_le (by omega)] at aligns
    exact ⟨handled, p, q, below, aligns, stands'⟩
  | succ count inductionHypothesis =>
    intro fuel handled p q a b state below aligns isA isB end0 end1 same stands enough
    obtain ⟨fuel, rfl⟩ : ∃ more, fuel = more + 1 := ⟨fuel - 1, by omega⟩
    have equal := same 0 le_rfl (by omega)
    rw [add_zero, add_zero, codeAt_getElem (by omega) (by omega),
      codeAt_getElem (by omega) (by omega)] at equal
    simp only [Int.toNat_natCast] at equal
    obtain ⟨more, prints⟩ := round (by omega) (by omega) (by
      rw [isA, isB, List.getElem?_eq_getElem (by omega), List.getElem?_eq_getElem (by omega)]
      exact congrArg some equal) stands
    rw [printEndLoop_succ, if_neg more]
    refine prints.bind fun state' stands' => ?_
    refine inductionHypothesis below (aligns_take_common aligns (by omega) (by omega) equal) ?_ ?_
      (by omega) (by omega) ?_ stands' (by omega)
    · rw [modesOf_append, List.length_append, isA]
      rfl
    · rw [modesOf_append, List.length_append, isB]
      rfl
    · intro k low high
      have further := same (1 + k) (by omega) (by omega)
      push_cast
      rwa [← add_assoc, ← add_assoc] at further

/-! ### doDiff -/

/-- The state in which `doDiff` is called. The files hold their texts, nothing is loaded, and there
is room for the numbers of the words. -/
structure Ready (options : Options) (locale : Locale) (texts : Side → Text) (state : Printing) :
    Prop where
  ids : ∀ side, (state.file side).diffTokens = (texts side).ids
  tokens : ∀ side, Holds options locale (state.file side).tokens (texts side).tokens
  whitespace : ∀ side, Holds options locale (state.file side).whitespace (texts side).runs
  unused : ∀ side, (state.file side).whitespaceBufferUsed = false
  events : state.events = []
  hashtable : state.hashtable = Hashtable.empty
  fitting : Fitting (texts .old).ids (texts .new).ids state.baseHashMax

theorem Ready.conserved (ready : Ready options locale texts state) (starts : extra state.rewound) :
    Conserved options locale texts state.baseHashMax extra 0 0 state.rewound := by
  refine ⟨[], .nil, rfl, rfl, ⟨fun side => ?_, ?_, rfl, ready.hashtable⟩, starts⟩
  · have rest0 : Rest options locale (texts side).tokens 0 (state.file side).tokens := by
      rw [Rest, if_pos (Nat.zero_le _)]
      exact ready.tokens side
    have rest1 : Rest options locale (texts side).runs 0 (state.file side).whitespace := by
      rw [Rest, if_pos (Nat.zero_le _)]
      exact ready.whitespace side
    have none : takings side state.events = [] := by
      rw [ready.events]
      rfl
    cases side with
    | old => exact ⟨ready.ids .old, rest0, rest1, ready.unused .old, rfl, none⟩
    | new => exact ⟨ready.ids .new, rest0, rest1, ready.unused .new, rfl, none⟩
  · show tokenCalls state.events = []
    rw [ready.events]
    rfl

/-- What holds at the end of a run: when common text is printed, every word was handled; otherwise
all the words but the last common ones. -/
def Returned (options : Options) (locale : Locale) (texts : Side → Text) (hashMax : Nat)
    (extra : Printing → Prop) (state : Printing) : Prop :=
  if options.printCommon then Finished options locale texts hashMax extra state
  else Arrives (texts .old).ids (texts .new).ids
    (Conserved options locale texts hashMax extra) (texts .old).ids.length
    (texts .new).ids.length state

/-- What is upheld holds at the end of a run. -/
theorem Returned.upheld (returned : Returned options locale texts hashMax extra state) :
    extra state := by
  unfold Returned at returned
  split at returned
  · obtain ⟨_, _, _, _, _, stands⟩ := returned
    exact stands.2
  · obtain ⟨_, _, _, _, _, _, _, stands⟩ := returned
    exact stands.2

/-- When every word was handled, the whole of both files was taken. -/
theorem Finished.takings (finished : Finished options locale texts hashMax extra state)
    (side : Side) :
    ∃ modes, Dwdiff.takings side state.events = told (texts side) modes ∧
      modes.length = (texts side).ids.length + 1 := by
  obtain ⟨handled, p, q, -, aligns, represents, -⟩ := finished
  refine ⟨modesOf side (handled ++ [.common]), ?_, ?_⟩
  · rw [(represents.files side).isTold, tracksAt_modes, Track.pending,
      (tracksAt_fresh _ p q side).1]
    exact List.append_nil _
  · rw [modesOf_append, List.length_append]
    cases side with
    | old => exact congrArg (· + 1) aligns.length_old
    | new => exact congrArg (· + 1) aligns.length_new

section Whole

variable (allowed : Failure → Prop)
  (upholds : Upholds options locale texts state.baseHashMax extra during)
  (ready : Ready options locale texts state) (starts : extra state.rewound)
  (ofText : ∀ failure : Failure, failure.OfText → allowed failure)
  (accepted : allowed .ofTrimming ∨ Accepted options state.baseHashMax
    (texts .old).ids (texts .new).ids (options.matchContext + 1) none options.matchContext)

include upholds ready starts ofText accepted

/-- The comparison ends at the last change, with the common words behind it still to print. -/
theorem doDiffInternal_arrives :
    Meets allowed (Arrives (texts .old).ids (texts .new).ids
        (Conserved options locale texts state.baseHashMax extra) (texts .old).ids.length
        (texts .new).ids.length)
      (doDiffInternal options locale (options.matchContext + 1) none options.matchContext
        state.rewound) := by
  have run := @doDiffInternal_meets _ _ _ _ _ _ _ (conserved_keeps upholds ofText) ready.fitting
    (options.matchContext + 1) none (wholeRange (texts .old).ids (texts .new).ids)
    options.matchContext rfl (wholeRange_inside _ _) (Nat.lt_succ_self _) id accepted _
    ⟨0, 0, InStep.refl _ _ _ _, ready.conserved starts⟩
  refine run.mono fun state' arrives => ?_
  simpa only [wholeRange, zero_add] using arrives

/-- A whole run. -/
theorem doDiff_meets :
    Meets allowed (Returned options locale texts state.baseHashMax extra)
      (doDiff options locale state) := by
  unfold doDiff
  refine (doDiffInternal_arrives allowed upholds ready starts ofText accepted).bind
    fun state' arrives => ?_
  unfold printEnd Returned
  cases prints : options.printCommon with
  | false => exact arrives
  | true =>
    obtain ⟨p, q, inStep, handled, aligns, isP, isQ, stands⟩ := arrives
    have le := inStep.le
    have lengths := inStep.lengths
    have enough : (texts .new).tokens.length - q.toNat < state'.newFile.tokens.rounds := by
      have rest := (stands.1.files .new).tokens
      rw [tracksAt_modes, Rest, if_pos (by rw [(texts .new).tokens_length]; omega)] at rest
      have less := rest.length_lt
      rw [List.length_drop] at less
      have same : (modesOf .new handled).length = q.toNat := by omega
      rw [same] at less
      exact less
    rw [(texts .new).tokens_length] at enough
    refine (printEndLoop_meets upholds prints ((texts .new).ids.length - q.toNat)
      ⟨by omega, by omega⟩ aligns (by omega) (by omega) (by omega) (by omega) ?_ stands
      (by omega)).widen ofText
    intro k low high
    rw [Int.toNat_of_nonneg (by omega), Int.toNat_of_nonneg (by omega)]
    exact inStep.same k low (by omega)

end Whole

/-- Nothing has to be known about what is printed. -/
theorem upholds_true :
    Upholds options locale texts hashMax (fun _ => True) fun _ => True where
  common := fun represents fresh le _ _ =>
    (handleCommonWord_represents represents fresh le _).mono fun _ _ => trivial
  prepare := fun represents fresh below _ _ =>
    (prepareWhitespace_represents represents fresh below).mono fun _ _ => trivial
  whitespace := fun _ _ represents loaded below _ =>
    (handleNextWhitespace_represents represents rfl loaded (Nat.le_of_lt below) _ _).mono
      fun _ _ => trivial
  token := fun _ represents isTaken _ below _ =>
    (handleNextToken_represents represents rfl isTaken (Nat.le_of_lt below) _ _).mono
      fun _ _ => trivial
  enter := fun _ => trivial
  advance := fun _ => ⟨fun _ => trivial, fun _ => trivial⟩
  start := fun _ _ _ => trivial
  stop := fun _ _ _ => trivial
  finish := fun _ _ _ _ _ _ _ => trivial
  stepped := fun _ _ _ _ => trivial
  ended := fun _ => trivial
  marked := fun _ _ => trivial
  noticed := fun _ => trivial

end Conserved

/-! ### Texts in single-byte mode -/

/-- A text of bytes. -/
def byteText (ids : List Nat) (runs tokens : List (List UInt8))
    (runs_length : runs.length = ids.length + 1) (tokens_length : tokens.length = ids.length) :
    Text where
  ids := ids
  runs := runs.map (List.map .single)
  tokens := tokens.map (List.map .single)
  runs_length := by rw [List.length_map, runs_length]
  tokens_length := by rw [List.length_map, tokens_length]

/-- The file as `readFile` leaves it. -/
structure WrittenAs (file : InputFile) (ids : List Nat) (runs tokens : List (List UInt8)) :
    Prop where
  ids : file.diffTokens = ids
  tokens : file.tokens = newFileStream (tokens.flatMap escaped)
  whitespace : file.whitespace = newFileStream (runs.flatMap escaped)
  unused : file.whitespaceBufferUsed = false

theorem ready_of_written {options : Options} {locale : Locale}
    (singleByte : options.utf8Mode = false) {ids0 ids1 : List Nat}
    {runs0 tokens0 runs1 tokens1 : List (List UInt8)} (runs0_length) (tokens0_length)
    (runs1_length) (tokens1_length) {state : Printing}
    (written0 : WrittenAs state.oldFile ids0 runs0 tokens0)
    (written1 : WrittenAs state.newFile ids1 runs1 tokens1) (events : state.events = [])
    (hashtable : state.hashtable = Hashtable.empty)
    (fitting : Fitting ids0 ids1 state.baseHashMax) :
    Ready options locale (pick (byteText ids0 runs0 tokens0 runs0_length tokens0_length)
      (byteText ids1 runs1 tokens1 runs1_length tokens1_length)) state := by
  have holds : ∀ {stream : Stream} {pieces : List (List UInt8)},
      stream = newFileStream (pieces.flatMap escaped) →
      Holds options locale stream (pieces.map (List.map .single)) := by
    rintro stream pieces rfl
    exact holds_escaped singleByte rfl (by nofun) rfl
  refine ⟨fun side => ?_, fun side => ?_, fun side => ?_, fun side => ?_, events, hashtable,
    fitting⟩
  · cases side with
    | old => exact written0.ids
    | new => exact written1.ids
  · cases side with
    | old => exact holds written0.tokens
    | new => exact holds written1.tokens
  · cases side with
    | old => exact holds written0.whitespace
    | new => exact holds written1.whitespace
  · cases side with
    | old => exact written0.unused
    | new => exact written1.unused

/-! ### Word conservation -/

/-- Word conservation. When `doDiff` returns, and common text is printed, the words of both files
were handled one by one, their whitespace before their tokens; the words handled together are the
same; and both files are read to their ends. The last two calls and pieces are those of the round
that finds the ends. The position in a file is counted in an `int`. -/
theorem doDiff_conserves {options : Options} {locale : Locale} {texts : Side → Text}
    {state final : Printing} (ready : Ready options locale texts state)
    (few : ∀ side, (texts side).ids.length < 2 ^ 31)
    (prints : options.printCommon = true) (returns : doDiff options locale state = .ok final) :
    ∃ handled, Aligns (texts .old).ids (texts .new).ids handled ∧
      tokenCalls final.events = callsOf handled ++ commonCalls ∧
      (∀ side, takings side final.events =
        told (texts side) (modesOf side handled ++ [commonMode side])) ∧
      ∀ side, (final.file side).lastPrinted < 2 ^ 31 ∧ (final.file side).tokens.eof = .hit ∧
        Holds options locale (final.file side).whitespace [] := by
  have meets := (doDiff_meets (fun _ => True) upholds_true ready trivial (fun _ _ => trivial)
    (Or.inl trivial)).of_ok returns
  rw [Returned, if_pos prints] at meets
  obtain ⟨handled, p, q, below, aligns, represents, -⟩ := meets
  have lengths : ∀ side, (modesOf side handled).length = (texts side).ids.length := fun side => by
    cases side with
    | old => exact aligns.length_old
    | new => exact aligns.length_new
  have modes : ∀ side, (tracksAt (handled ++ [.common]) p q side).modes =
      modesOf side handled ++ [commonMode side] := fun side => by
    rw [tracksAt_modes, modesOf_append]
    cases side <;> rfl
  refine ⟨handled, aligns, ?_, fun side => ?_, fun side => ⟨?_, ?_, ?_⟩⟩
  · rw [represents.calls, callsOf_append]
    rfl
  · rw [(represents.files side).isTold, modes, Track.pending, (tracksAt_fresh _ p q side).1]
    exact List.append_nil _
  · have few := few side
    rw [(represents.files side).printed]
    cases side with
    | old => exact lt_of_le_of_lt below.1 (by exact_mod_cast few)
    | new => exact lt_of_le_of_lt below.2 (by exact_mod_cast few)
  · rw [(represents.files side).tokens.eof_iff, modes, (texts side).tokens_length,
      List.length_append, lengths]
    exact Nat.lt_succ_self _
  · have rest := (represents.files side).whitespace
    rw [modes, (tracksAt_fresh _ p q side).1, Bool.toNat_false, add_zero, List.length_append,
      lengths, List.length_singleton, Rest, (texts side).runs_length, if_pos le_rfl,
      List.drop_of_length_le (le_of_eq (texts side).runs_length)] at rest
    exact rest

/-- The texts `a b` and `a c`, as they are read. -/
def twoWords : Printing :=
  { initialPrinting with
    oldFile := { emptyFile with
      diffTokens := [0, 1]
      tokens := newFileStream [97, 0, 98, 0]
      whitespace := newFileStream [0, 32, 0, 0] }
    newFile := { emptyFile with
      diffTokens := [0, 2]
      tokens := newFileStream [97, 0, 99, 0]
      whitespace := newFileStream [0, 32, 0, 0] }
    baseHashMax := 3 }

theorem doDiff_conserves_twoWords :
    ∃ (texts : Side → Text) (final : Printing), doDiff defaultOptions cLocale twoWords = .ok final ∧
      (texts .old).ids = [0, 1] ∧ (texts .new).ids = [0, 2] ∧
      ∃ handled, Aligns (texts .old).ids (texts .new).ids handled ∧
        tokenCalls final.events = callsOf handled ++ commonCalls ∧
        (∀ side, takings side final.events =
          told (texts side) (modesOf side handled ++ [commonMode side])) ∧
        ∀ side, (final.file side).lastPrinted < 2 ^ 31 ∧ (final.file side).tokens.eof = .hit ∧
          Holds defaultOptions cLocale (final.file side).whitespace [] := by
  obtain ⟨final, returns⟩ := @exists_of_toBool _ _ (doDiff defaultOptions cLocale twoWords)
    (by decide +kernel)
  refine ⟨pick (byteText [0, 1] [[], [32], []] [[97], [98]] rfl rfl)
    (byteText [0, 2] [[], [32], []] [[97], [99]] rfl rfl), final, returns, rfl, rfl, ?_⟩
  exact doDiff_conserves (ready_of_written rfl rfl rfl rfl rfl ⟨rfl, rfl, rfl, rfl⟩
    ⟨rfl, rfl, rfl, rfl⟩ rfl rfl ⟨by decide, by decide, by decide, by decide⟩)
    (by rintro (_ | _) <;> decide) rfl returns

end Dwdiff
