/-
This file is about the variables of a run that steer it or report on it: the
word numbers, the positions in the two files, the statistics and the exit status.
The functions that print text leave them alone whatever the text is, so that the
exit status and the statistics follow from the scripts of the engine only.
-/

import Dwdiff.Program
import Dwdiff.Run
import Dwdiff.Taking

namespace Dwdiff

open Diff Outcome

variable {state : Printing} {command : Command} {change : Change}

/-! ### The functions that print leave the control variables alone -/

/-- The variables that do not depend on the texts. -/
structure Control where
  tokens : Side → List Nat
  printed : Side → Int
  baseHashMax : Nat
  hashtable : Hashtable
  differences : Nat
  statistics : Statistics
  commonSteps : Nat

/-- The number of words that `printToCommonWord` has printed as common. -/
def commonSteps (steps : List Step) : Nat :=
  (steps.filter fun step => step.kind == .common).length

def Printing.control (state : Printing) : Control where
  tokens := fun side => (state.file side).diffTokens
  printed := fun side => (state.file side).lastPrinted
  baseHashMax := state.baseHashMax
  hashtable := state.hashtable
  differences := state.differences
  statistics := state.statistics
  commonSteps := commonSteps state.steps

/-- The position in one of the files is another one. -/
def Control.moved (control : Control) (side : Side) (place : Int) : Control :=
  { control with printed := Function.update control.printed side place }

@[simp] theorem Control.printed_moved (control : Control) (side : Side) (place : Int) :
    (control.moved side place).printed side = place := Function.update_self ..

theorem Control.moved_self {control : Control} {side : Side} {place : Int}
    (there : control.printed side = place) : control.moved side place = control := by
  rw [Control.moved, ← there, Function.update_eq_self]

theorem Control.moved_moved (control : Control) (side : Side) (place place' : Int) :
    (control.moved side place).moved side place' = control.moved side place' := by
  rw [Control.moved, Control.moved, Function.update_idem]
  rfl

theorem control_setFile (state : Printing) {side : Side} {file : InputFile}
    (tokens : file.diffTokens = (state.file side).diffTokens) :
    (state.setFile side file).control = state.control.moved side file.lastPrinted := by
  simp only [Printing.control, Control.moved, Control.mk.injEq]
  refine ⟨?_, ?_, ?_, ?_, ?_, ?_, ?_⟩
  · funext other
    cases side <;> cases other <;> first | exact tokens | rfl
  · funext other
    cases side <;> cases other <;> rfl
  all_goals cases side <;> rfl

/-- A file whose words and position are the old ones. -/
theorem control_replaced (state : Printing) {side : Side} {file : InputFile}
    (tokens : file.diffTokens = (state.file side).diffTokens)
    (printed : file.lastPrinted = (state.file side).lastPrinted) :
    (state.setFile side file).control = state.control := by
  rw [control_setFile state tokens, printed]
  exact Control.moved_self rfl

theorem control_record (state : Printing) (event : Event) :
    (state.record event).control = state.control := rfl

/-- The control variables when the files and the variables of the comparison are the same. -/
theorem control_congr {state after : Printing} (files : ∀ side, after.file side = state.file side)
    (hashMax : after.baseHashMax = state.baseHashMax) (table : after.hashtable = state.hashtable)
    (differences : after.differences = state.differences) :
    after.control = { state.control with
      statistics := after.statistics, commonSteps := commonSteps after.steps } := by
  simp only [Printing.control, files, hashMax, table, differences]

theorem commonSteps_append {steps : List Step} {step : Step} (other : step.kind ≠ .common) :
    commonSteps (steps ++ [step]) = commonSteps steps := by
  simp [commonSteps, other]

/-! ### How printing can fail -/

/-- The failures of the functions that print. The loops of the model are bounded, and the bound of
`printEnd` is that of a token file with its terminators. -/
def Failure.OfPrinting (failure : Failure) : Prop :=
  failure.OfText ∨ failure = .diverges

/-- The function fails as functions that print do, or it leaves the control variables of
`control`. -/
def Prints (control : Control) (outcome : Except Failure Printing) : Prop :=
  Meets Failure.OfPrinting (fun after => after.control = control) outcome

section Frame

variable (options : Options) (locale : Locale)

/-- A loop over a piece of any stream. -/
theorem forPiece_prints {State : Type} {round : ReadChar → State → Except Failure State}
    (meets : ∀ char state, Meets Failure.OfText (fun _ => True) (round char state))
    (stream : Stream) (state : State) :
    Meets Failure.OfPrinting (fun _ => True)
      (forPiece options locale (always round) stream.rounds stream state) :=
  (@forPiece_meets_any _ _ _ _ _ (fun _ => True) _ (fun _ isText => isText)
    (fun char state _ => (always_meets (meets char state)).mono fun _ _ => trivial) _
    (weight_lt_rounds stream) _ trivial).widen fun _ => Or.inl

theorem handleNextWhitespace_control (side : Side) (print : Bool) (mode : Mode)
    (state : Printing) :
    Prints state.control (handleNextWhitespace options locale side print mode state) := by
  have chars := handleWhitespaceChar_meets options print mode
  unfold handleNextWhitespace
  dsimp only
  split
  · refine ((forString_meets options locale chars (weight_lt_rounds _) _).widen
      fun _ => Or.inl).bind fun screen _ => ?_
    show (Printing.setFile _ _ _).control = _
    exact control_replaced { state with screen := screen } rfl rfl
  · refine (forPiece_prints options locale chars _ _).bind fun ⟨_, stream, screen⟩ _ => ?_
    show (Printing.record (Printing.setFile _ _ _) _).control = _
    rw [control_record]
    exact control_replaced { state with screen := screen } rfl rfl

theorem afterWhitespace_control (state : Printing) (side : Side) (stream : Stream) :
    (state.afterWhitespace options locale side stream).control = state.control := by
  unfold Printing.afterWhitespace
  dsimp only
  split
  · rfl
  · rw [control_record]
    exact control_replaced state rfl rfl

theorem handleSynchronizedNextWhitespace_control (printNew : Bool) (state : Printing) :
    Prints state.control (handleSynchronizedNextWhitespace options locale printNew state) := by
  -- Nothing is known about the streams, and nothing has to be.
  have followed : ∀ loop, Followed options locale False (newFileStream []) loop :=
    fun _ known => known.elim
  unfold handleSynchronizedNextWhitespace
  refine (forPiece_prints options locale (fun char loop =>
    (synchronize_meets _ _ char (followed loop)).mono fun _ _ => trivial) _ _).bind
    fun ⟨_, whitespaceA, synchronized⟩ _ => ?_
  refine ((skipRest_meets _ (followed synchronized)).widen fun _ => Or.inl).bind
    fun ⟨screen, whitespaceB⟩ _ => ?_
  exact (afterWhitespace_control options locale _ _ _).trans
    (afterWhitespace_control options locale _ _ _)

theorem handleNextToken_control (side : Side) (print : Bool) (mode : Mode) (state : Printing) :
    Prints state.control (handleNextToken options locale side print mode state) := by
  have rounds : ∀ char loop, Meets Failure.OfText (fun _ => True)
      (handleTokenRound options print mode char loop) := fun char loop =>
    (handleTokenChar_meets options print mode char loop.2).bind fun _ _ => trivial
  unfold handleNextToken
  refine (forPiece_prints options locale rounds _ _).bind
    fun ⟨pieceEnd, stream, empty, screen⟩ _ => ?_
  refine ((onlyIf_ofText (printParaDelim_meets options locale mode _) _).widen
    fun _ => Or.inl).bind fun screen _ => ?_
  show (Printing.record (Printing.setFile _ _ _) _).control = _
  rw [control_record]
  exact control_replaced { state with screen := screen } rfl rfl

theorem loadNextWhitespace_control (side : Side) (state : Printing) :
    Meets Failure.OfPrinting (fun result => result.2.control = state.control)
      (loadNextWhitespace options locale side state) := by
  unfold loadNextWhitespace
  refine (forPiece_prints options locale loadChar_meets _ _).bind
    fun ⟨_, stream, buffer, newlineFound⟩ _ => ?_
  show (Printing.record (Printing.setFile _ _ _) _).control = _
  rw [control_record]
  exact control_replaced state rfl rfl

/-! ### Words -/

theorem advance_control (state : Printing) (side : Side) :
    (state.advance side).control =
      state.control.moved side ((state.file side).lastPrinted + 1) :=
  control_setFile state rfl

theorem handleOneWord_control (side : Side) (print : Bool) (mode : Mode) (state : Printing) :
    Prints (state.control.moved side ((state.file side).lastPrinted + 1))
      (handleOneWord options locale side print mode state) := by
  refine (handleNextWhitespace_control options locale side print mode state).bind
    fun state' same => ?_
  refine (handleNextToken_control options locale side print mode state').bind
    fun state'' same' => ?_
  have printed : (state''.file side).lastPrinted = (state.file side).lastPrinted :=
    congrFun (congrArg Control.printed (same'.trans same)) side
  show (state''.advance side).control = _
  rw [advance_control, same', same, printed]

theorem handleWord_control (side : Side) (print : Bool) (mode : Mode) (idx : Int) :
    ∀ {fuel : Nat} {state : Printing}, (state.file side).lastPrinted ≤ idx →
      Prints (state.control.moved side idx)
        (handleWord options locale side print mode idx fuel state) := by
  intro fuel
  induction fuel with
  | zero =>
    intro state le
    unfold handleWord
    split
    · exact Or.inr rfl
    · exact (Control.moved_self (by show (state.file side).lastPrinted = idx; omega)).symm
  | succ fuel inductionHypothesis =>
    intro state le
    unfold handleWord
    split
    · refine (handleOneWord_control options locale side print mode state).bind
        fun state' moved => ?_
      have printed : (state'.file side).lastPrinted = (state.file side).lastPrinted + 1 := by
        have := congrFun (congrArg Control.printed moved) side
        rwa [Control.printed_moved] at this
      have rest := @inductionHypothesis state' (by omega)
      rwa [moved, Control.moved_moved] at rest
    · exact (Control.moved_self (by show (state.file side).lastPrinted = idx; omega)).symm

theorem handleCommonWord_control (print : Bool) (state : Printing) :
    Prints state.control (handleCommonWord options locale print state) := by
  refine (handleSynchronizedNextWhitespace_control options locale _ state).bind
    fun state' same => ?_
  refine (handleNextToken_control options locale _ _ _ _).bind fun state'' same' => ?_
  refine (handleNextToken_control options locale _ _ _ _).mono fun state''' same'' => ?_
  exact same''.trans (same'.trans same)

/-- The control variables after a common word. -/
def Control.stepped (control : Control) : Control :=
  { control with
    printed := fun side => control.printed side + 1
    commonSteps := control.commonSteps + 1 }

theorem printCommonWord_control (state : Printing) :
    Prints state.control.stepped (printCommonWord options locale state) := by
  refine (handleCommonWord_control options locale options.printCommon state).bind
    fun state' same => ?_
  show (Printing.step ((state'.advance .new).advance .old) .common).control = state.control.stepped
  rw [← same]
  simp only [Printing.control, Control.stepped, Control.mk.injEq]
  refine ⟨?_, ?_, rfl, rfl, rfl, rfl, ?_⟩
  · funext side
    cases side <;> rfl
  · funext side
    cases side <;> rfl
  · simp [commonSteps, Printing.step, Printing.advance, Printing.setFile]

/-- A range of words that is not empty is printed up to its end. The assertion about the position
holds where the range starts. -/
theorem printWords_control {start count : Int} (positive : 0 < count) (side : Side) (print : Bool)
    (mode : Mode) {state : Printing} (starts : (state.file side).lastPrinted = start) :
    Prints (state.control.moved side (start + count))
      (printWords options locale start count side print mode state) := by
  unfold printWords
  rw [starts, beq_self_eq_true]
  show Prints _ (handleNextWhitespace options locale side print mode.plusCommon state >>= _)
  refine (handleNextWhitespace_control options locale side print _ state).bind
    fun state' same => ?_
  generalize shown : state'.onScreen _ = state1
  have same1 : state1.control = state.control := by
    rw [← shown]
    exact same
  refine (handleNextToken_control options locale side print mode state1).bind
    fun state2 same2 => ?_
  have printed : (state2.file side).lastPrinted = start := by
    rw [← starts]
    exact congrFun (congrArg Control.printed (same2.trans same1)) side
  have advanced := advance_control state2 side
  refine (handleWord_control options locale side print mode (start + count) (by
    have := congrFun (congrArg Control.printed advanced) side
    rw [Control.printed_moved, printed] at this
    show (state2.advance side).control.printed side ≤ _
    omega)).bind fun state3 moved => ?_
  show state3.control = _
  rw [moved, advanced, Control.moved_moved, same2, same1]

/-! ### Changes -/

theorem prepareWhitespace_control (state : Printing) :
    Meets Failure.OfPrinting (fun result => result.2.control = state.control)
      (prepareWhitespace options locale state) := by
  unfold prepareWhitespace
  refine (loadNextWhitespace_control options locale .old state).bind
    fun ⟨oldNewline, state1⟩ same1 => ?_
  dsimp only at same1 ⊢
  split
  · refine (loadNextWhitespace_control options locale .new state1).bind
      fun ⟨newNewline, state2⟩ same2 => ?_
    dsimp only at same2 ⊢
    split
    · refine (handleSynchronizedNextWhitespace_control options locale _ state2).bind
        fun state3 same3 => ?_
      refine Eq.trans ?_ (same3.trans (same2.trans same1))
      have spaced : (state3.setFile .new
          { state3.newFile with whitespaceBuffer := [0x20] }).control = state3.control :=
        control_replaced state3 rfl rfl
      rw [← spaced]
      exact @control_replaced (state3.setFile .new _) .old
        { state3.oldFile with whitespaceBuffer := [] } rfl rfl
    · exact same2.trans same1
  · exact same1

/-- The added words come first only in a change of both files. -/
theorem loadWhitespace_control (command : Command) (state : Printing) :
    Meets Failure.OfPrinting
      (fun result => result.2.control = state.control ∧ (result.1 = true → command = .change))
      (loadWhitespace options locale command state) := by
  unfold loadWhitespace
  split
  · next isChange =>
    refine (prepareWhitespace_control options locale state).mono fun result same =>
      ⟨same, fun _ => ?_⟩
    have := (Bool.and_eq_true_iff.mp isChange).1
    exact eq_of_beq this
  · exact ⟨rfl, fun absurd' => by contradiction⟩

/-- The positions behind the words of a change. -/
def endsOf (command : Command) (change : Change) : Side → Int
  | .old => change.line0 + (wordChange command change).deleted
  | .new => change.line1 + (wordChange command change).inserted

theorem printChangedWords_control (suits : Suits command change) {reverseDeleteAdd : Bool}
    (reverse : reverseDeleteAdd = true → command = .change)
    (isOld : state.oldFile.lastPrinted = change.line0)
    (isNew : state.newFile.lastPrinted = change.line1) :
    Prints { state.control with printed := endsOf command change }
      (printChangedWords options locale reverseDeleteAdd command change state) := by
  have deletes : 0 < change.deleted → ∀ {state : Printing},
      state.oldFile.lastPrinted = change.line0 →
      Prints (state.control.moved .old (change.line0 + change.deleted))
        (printDeletedWords options locale change state) := fun positive {state} starts =>
    @printWords_control options locale _ _ positive .old _ _ state starts
  have adds : 0 < change.inserted → ∀ {state : Printing},
      state.newFile.lastPrinted = change.line1 →
      Prints (state.control.moved .new (change.line1 + change.inserted))
        (printAddedWords options locale change state) := fun positive {state} starts =>
    @printWords_control options locale _ _ positive .new _ _ state starts
  -- The words of one file leave the position in the other one.
  have stays : ∀ {after : Printing} {side : Side} {place : Int},
      after.control = state.control.moved side place →
      (after.file side.other).lastPrinted = (state.file side.other).lastPrinted := by
    intro after side place moved
    have different : side.other ≠ side := by cases side <;> decide
    exact (congrFun (congrArg Control.printed moved) side.other).trans
      (Function.update_of_ne different _ _)
  -- The positions that are reached, whatever was moved first.
  have reached : ∀ {control : Control}, control = state.control → ∀ {ends : Side → Int},
      ends .old = endsOf command change .old → ends .new = endsOf command change .new →
      { control with printed := ends } =
        { state.control with printed := endsOf command change } := by
    rintro control rfl ends same0 same1
    have : ends = endsOf command change := by
      funext side
      cases side with
      | old => exact same0
      | new => exact same1
    rw [this]
  unfold printChangedWords
  cases reverseDeleteAdd with
  | true =>
    obtain rfl := reverse rfl
    rw [if_pos rfl]
    refine (adds suits.2 isNew).bind fun state1 moved1 => ?_
    refine (deletes suits.1 ((stays moved1).trans isOld)).mono fun state2 moved2 => ?_
    rw [moved2, moved1]
    exact reached rfl rfl rfl
  | false =>
    rw [if_neg Bool.false_ne_true]
    cases command with
    | add =>
      refine (adds suits isNew).mono fun state1 moved1 => ?_
      rw [moved1]
      refine reached rfl ?_ rfl
      show state.oldFile.lastPrinted = change.line0 + 0
      rw [isOld, add_zero]
    | del =>
      refine (deletes suits isOld).bind fun state1 moved1 => ?_
      show state1.control = _
      rw [moved1]
      refine reached rfl rfl ?_
      show state.newFile.lastPrinted = change.line1 + 0
      rw [isNew, add_zero]
    | change =>
      refine (deletes suits.1 isOld).bind fun state1 moved1 => ?_
      refine (adds suits.2 ((stays moved1).trans isNew)).mono fun state2 moved2 => ?_
      rw [moved2, moved1]
      exact reached rfl rfl rfl

/-- The control variables after a change. -/
def Control.changed (control : Control) (command : Command) (change : Change) : Control :=
  { control with
    printed := endsOf command change
    statistics := countChange command change control.statistics }

theorem finishChange_control (command : Command) (change : Change) (state : Printing) :
    (finishChange options command change state).control =
      { state.control with statistics := countChange command change state.statistics } := by
  have same := @control_congr state (finishChange options command change state)
    (fun side => by cases side <;> rfl) rfl rfl rfl
  have counted : commonSteps (finishChange options command change state).steps =
      commonSteps state.steps := commonSteps_append (by simp)
  rw [same, counted]
  rfl

theorem printDifference_control (suits : Suits command change)
    (isOld : state.oldFile.lastPrinted = change.line0)
    (isNew : state.newFile.lastPrinted = change.line1) :
    Prints (state.control.changed command change)
      (printDifference options locale command change state) := by
  unfold printDifference
  refine (loadWhitespace_control options locale command state).bind
    fun ⟨reverseDeleteAdd, state1⟩ ⟨same, reverse⟩ => ?_
  dsimp only at same reverse ⊢
  have printed : ∀ side, (state1.file side).lastPrinted = (state.file side).lastPrinted :=
    fun side => congrFun (congrArg Control.printed same) side
  refine (printChangedWords_control options locale suits reverse ((printed .old).trans isOld)
    ((printed .new).trans isNew)).bind fun state2 moved => ?_
  show (finishChange options command change state2).control = _
  have statistics : state2.statistics = state.statistics :=
    (congrArg Control.statistics moved).trans (congrArg Control.statistics same)
  rw [finishChange_control, moved, same, statistics]
  rfl

theorem printEndLoop_control (fuel : Nat) :
    ∀ state, Prints state.control (printEndLoop options locale fuel state) := by
  induction fuel with
  | zero => exact fun _ => Or.inr rfl
  | succ fuel inductionHypothesis =>
    intro state
    rw [printEndLoop_succ]
    split
    · rfl
    · refine (handleCommonWord_control options locale true state).bind fun state' same => ?_
      have ending : (state'.step .ending).control = state.control := by
        have counted : commonSteps (state'.step .ending).steps = commonSteps state'.steps :=
          commonSteps_append (by simp)
        rw [← same, @control_congr state' (state'.step .ending) (fun side => by cases side <;> rfl)
          rfl rfl rfl, counted]
        rfl
      rw [← ending]
      exact inductionHypothesis _

theorem printEnd_control (state : Printing) :
    Prints state.control (printEnd options locale state) := by
  unfold printEnd
  split
  · exact printEndLoop_control options locale _ state
  · rfl

end Frame

/-! ### A whole run -/

section Steered

variable {options : Options} {locale : Locale} {old new : List Nat} {hashMax : Nat}
  {noticed : Prop} {before : Printing}

/-- The words of the old file that were counted as deleted or changed, and those of the new file
that were counted as added or changed. -/
def Statistics.oldWords (statistics : Statistics) : Int :=
  statistics.deleted + statistics.oldChanged

def Statistics.newWords (statistics : Statistics) : Int :=
  statistics.added + statistics.newChanged

/-- No counter has become smaller. -/
structure Statistics.Grows (before after : Statistics) : Prop where
  added : before.added ≤ after.added
  deleted : before.deleted ≤ after.deleted
  oldChanged : before.oldChanged ≤ after.oldChanged
  newChanged : before.newChanged ≤ after.newChanged

/-- The control variables with `p` and `q` words printed. Every word is counted once, on top of
what the counters held before. -/
structure Steered (old new : List Nat) (hashMax : Nat) (noticed : Prop) (before : Printing)
    (p q : Int) (state : Printing) : Prop where
  nonneg : 0 ≤ p ∧ 0 ≤ q
  tokens : state.oldFile.diffTokens = old ∧ state.newFile.diffTokens = new
  hashMax : state.baseHashMax = hashMax
  hashtable : state.hashtable = Hashtable.empty
  printed : state.oldFile.lastPrinted = p ∧ state.newFile.lastPrinted = q
  differences : noticed → state.differences = 1
  grows : before.statistics.Grows state.statistics
  steps : commonSteps before.steps ≤ commonSteps state.steps
  oldTally : state.statistics.oldWords + commonSteps state.steps =
    before.statistics.oldWords + commonSteps before.steps + p
  newTally : state.statistics.newWords + commonSteps state.steps =
    before.statistics.newWords + commonSteps before.steps + q

/-- The fields in terms of the control variables. -/
theorem steered_of_control {p q : Int} {control : Control} (isControl : state.control = control)
    (nonneg : 0 ≤ p ∧ 0 ≤ q) (tokens : control.tokens .old = old ∧ control.tokens .new = new)
    (isMax : control.baseHashMax = hashMax) (table : control.hashtable = Hashtable.empty)
    (printed : control.printed .old = p ∧ control.printed .new = q)
    (differences : noticed → control.differences = 1)
    (grows : before.statistics.Grows control.statistics)
    (steps : commonSteps before.steps ≤ control.commonSteps)
    (oldTally : control.statistics.oldWords + control.commonSteps =
      before.statistics.oldWords + commonSteps before.steps + p)
    (newTally : control.statistics.newWords + control.commonSteps =
      before.statistics.newWords + commonSteps before.steps + q) :
    Steered old new hashMax noticed before p q state := by
  subst isControl
  exact ⟨nonneg, tokens, isMax, table, printed, differences, grows, steps, oldTally, newTally⟩

/-- A change is counted with the words that it has printed. -/
theorem countChange_words (command : Command) (change : Change) (statistics : Statistics) :
    (countChange command change statistics).oldWords =
        statistics.oldWords + (wordChange command change).deleted ∧
      (countChange command change statistics).newWords =
        statistics.newWords + (wordChange command change).inserted := by
  cases command <;> simp [countChange, Statistics.oldWords, Statistics.newWords, wordChange] <;>
    omega

theorem Statistics.Grows.count {before after : Statistics} (grows : before.Grows after)
    (suits : Suits command change) : before.Grows (countChange command change after) := by
  obtain ⟨added, deleted, oldChanged, newChanged⟩ := grows
  cases command with
  | add =>
    have inserted : 0 < change.inserted := suits
    exact ⟨by show _ ≤ _ + _; omega, deleted, oldChanged, newChanged⟩
  | del =>
    have deletes : 0 < change.deleted := suits
    exact ⟨added, by show _ ≤ _ + _; omega, oldChanged, newChanged⟩
  | change =>
    obtain ⟨deletes, inserts⟩ := suits
    exact ⟨added, deleted, by show _ ≤ _ + _; omega, by show _ ≤ _ + _; omega⟩

theorem steered_keeps {allowed : Failure → Prop}
    (printing : ∀ failure : Failure, failure.OfPrinting → allowed failure) :
    Keeps options locale old new hashMax allowed
      (Steered old new hashMax noticed before) where
  nonneg := fun steered => steered.nonneg
  oldTokens := fun steered => steered.tokens.1
  newTokens := fun steered => steered.tokens.2
  hashMax := fun steered => steered.hashMax
  hashtable := fun steered => steered.hashtable
  printed := fun steered => steered.printed.2
  marked := fun _ steered => { steered with }
  noticed := fun steered => { steered with differences := fun _ => rfl }
  common := fun {p q state} steered _ _ _ => by
    refine ((printCommonWord_control options locale state).widen printing).mono
      fun state' stepped => ?_
    obtain ⟨nonneg, tokens, isMax, table, printed, differences, grows, steps, oldTally, newTally⟩ :=
      steered
    refine steered_of_control stepped (by omega) tokens isMax table ?_ differences grows
      (Nat.le_succ_of_le steps) ?_ ?_
    · show state.oldFile.lastPrinted + 1 = p + 1 ∧ state.newFile.lastPrinted + 1 = q + 1
      omega
    · show state.statistics.oldWords + ((commonSteps state.steps + 1 : Nat) : Int) = _
      push_cast
      omega
    · show state.statistics.newWords + ((commonSteps state.steps + 1 : Nat) : Int) = _
      push_cast
      omega
  difference := fun {command change state} suits _ _ steered => by
    obtain ⟨nonneg, tokens, isMax, table, printed, differences, grows, steps, oldTally, newTally⟩ :=
      steered
    refine ((printDifference_control options locale suits printed.1 printed.2).widen printing).mono
      fun state' changed => ?_
    obtain ⟨deleted, inserted, -, -⟩ := suits.words
    obtain ⟨oldWords, newWords⟩ := countChange_words command change state.statistics
    refine steered_of_control changed (by omega) tokens isMax table ⟨rfl, rfl⟩ differences
      (grows.count suits) steps ?_ ?_
    · show (countChange command change state.statistics).oldWords +
        (commonSteps state.steps : Int) = _
      omega
    · show (countChange command change state.statistics).newWords +
        (commonSteps state.steps : Int) = _
      omega

/-- The control variables of a run before its first word. -/
theorem steered_start (tokens : state.oldFile.diffTokens = old ∧ state.newFile.diffTokens = new)
    (table : state.hashtable = Hashtable.empty) (differences : noticed → state.differences = 1) :
    Arrives old new (Steered old new state.baseHashMax noticed state) 0 0 state.rewound :=
  ⟨0, 0, InStep.refl _ _ _ _, ⟨le_rfl, le_rfl⟩, tokens, rfl, table, ⟨rfl, rfl⟩, differences,
    ⟨le_rfl, le_rfl, le_rfl, le_rfl⟩, le_rfl, (add_zero _).symm, (add_zero _).symm⟩

/-- A run of `doDiff` prints common words and changes up to some place, and from there on the words
are the same. It fails in the functions that print, or in the trimming when a script is refused. -/
theorem doDiff_steered {allowed : Failure → Prop} {state : Printing}
    (fitting : Fitting old new state.baseHashMax)
    (tokens : state.oldFile.diffTokens = old ∧ state.newFile.diffTokens = new)
    (table : state.hashtable = Hashtable.empty) (differences : noticed → state.differences = 1)
    (printing : ∀ failure : Failure, failure.OfPrinting → allowed failure)
    (accepted : allowed .ofTrimming ∨ Accepted options state.baseHashMax old new
      (options.matchContext + 1) none options.matchContext) :
    Meets allowed (Arrives old new (Steered old new state.baseHashMax noticed state) old.length
      new.length) (doDiff options locale state) := by
  refine (@doDiffInternal_meets options locale old new _ _ _ (steered_keeps printing) fitting
    (options.matchContext + 1) none (wholeRange old new) options.matchContext rfl
    (wholeRange_inside _ _) (Nat.lt_succ_self _) id accepted _
    (steered_start tokens table differences)).bind fun state' arrives => ?_
  refine ((printEnd_control options locale state').widen printing).mono fun final same => ?_
  obtain ⟨p, q, inStep, nonneg, tokens', isMax, table', printed, noticed', grows, steps, oldTally,
    newTally⟩ := arrives
  simp only [wholeRange, zero_add] at inStep
  exact ⟨p, q, inStep, steered_of_control same nonneg tokens' isMax table' printed noticed' grows
    steps oldTally newTally⟩

end Steered

/-! ### The exit status -/

section ExitStatus

variable {options : Options} {locale : Locale}

/-- The first change of a script is noticed before anything is printed. -/
theorem doDiffInternal_noticed {depth context context' : Nat} {baseRange : Option Range}
    {comparing : Comparing} {table : Hashtable}
    (compares : compareRange options state.baseHashMax state.oldFile.diffTokens
      state.newFile.diffTokens baseRange context state.hashtable = .ok (context', comparing, table))
    (changes : comparing.script ≠ []) :
    doDiffInternal options locale (depth + 1) baseRange context state =
      doDiffInternal options locale (depth + 1) baseRange context
        { state with differences := 1 } := by
  obtain ⟨change, rest, isScript⟩ := List.exists_cons_of_ne_nil changes
  rw [doDiffInternal, doDiffInternal, compares, ok_bind, ok_bind]
  dsimp only
  rw [isScript]
  rfl

/-- Without a change nothing is done. -/
theorem doDiffInternal_same {depth context context' : Nat} {baseRange : Option Range}
    {final : Printing} {comparing : Comparing} {table : Hashtable}
    (compares : compareRange options state.baseHashMax state.oldFile.diffTokens
      state.newFile.diffTokens baseRange context state.hashtable = .ok (context', comparing, table))
    (none : comparing.script = [])
    (returns : doDiffInternal options locale (depth + 1) baseRange context state = .ok final) :
    final.differences = state.differences := by
  rw [doDiffInternal, compares, ok_bind] at returns
  dsimp only at returns
  rw [none] at returns
  exact (congrArg Printing.differences (Except.ok.inj returns)).symm

/-- The exit status tells equality. Whatever the texts are that were printed, the status that
`doDiff` leaves is 0 exactly when the two sequences of words are the same. -/
theorem doDiff_differences_iff {state final : Printing}
    (fitting : Fitting state.oldFile.diffTokens state.newFile.diffTokens state.baseHashMax)
    (table : state.hashtable = Hashtable.empty) (starts : state.differences = 0)
    (returns : doDiff options locale state = .ok final) :
    final.differences = 0 ↔ state.oldFile.diffTokens = state.newFile.diffTokens := by
  obtain ⟨comparing, compares, -, found⟩ := @compareRange_total _ _ _ none
    (wholeRange _ _) options fitting rfl (wholeRange_inside _ _) options.matchContext
  rw [← table] at compares
  -- What doDiff resets is not looked at by the comparison.
  change compareRange options state.rewound.baseHashMax state.rewound.oldFile.diffTokens
    state.rewound.newFile.diffTokens none options.matchContext state.rewound.hashtable = _
    at compares
  have isNil := found.script_nil_iff
  simp only [wholeRange, sliceOf_whole] at isNil
  rw [← isNil]
  by_cases none : comparing.script = []
  · obtain ⟨state', internal, ended⟩ := bind_eq_ok.mp returns
    have same : state'.differences = 0 :=
      (doDiffInternal_same compares none internal).trans starts
    have kept := congrArg Control.differences
      ((printEnd_control options locale state').of_ok ended)
    exact ⟨fun _ => none, fun _ => kept.trans same⟩
  · have noticed : doDiff options locale state =
        doDiff options locale { state with differences := 1 } := by
      unfold doDiff
      rw [doDiffInternal_noticed compares none]
      rfl
    rw [noticed] at returns
    obtain ⟨p, q, -, steered⟩ := (@doDiff_steered options locale _ _ True (fun _ => True)
      { state with differences := 1 } fitting ⟨rfl, rfl⟩ table (fun _ => rfl) (fun _ _ => trivial)
      (Or.inl trivial)).of_ok returns
    have one := steered.differences trivial
    exact ⟨fun isZero => by omega, fun isNone => absurd isNone none⟩

/-- Two sequences of words, without their texts. -/
def numbersOnly (old new : List Nat) (baseHashMax : Nat) : Printing :=
  { initialPrinting with
    oldFile := { emptyFile with diffTokens := old }
    newFile := { emptyFile with diffTokens := new }
    baseHashMax }

theorem doDiff_differences_iff_numbers :
    ∃ final, doDiff defaultOptions cLocale (numbersOnly [0, 1] [0, 2] 3) = .ok final ∧
      (final.differences = 0 ↔ [0, 1] = [0, 2]) := by
  obtain ⟨final, returns⟩ := @exists_of_toBool _ _
    (doDiff defaultOptions cLocale (numbersOnly [0, 1] [0, 2] 3)) (by decide +kernel)
  exact ⟨final, returns, doDiff_differences_iff ⟨by decide, by decide, by decide, by decide⟩ rfl rfl
    returns⟩

end ExitStatus

end Dwdiff
