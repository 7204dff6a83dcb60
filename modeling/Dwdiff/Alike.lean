/-
This file compares two runs of `doDiff` that differ in what the static variables
were left at by an earlier run: the line numbers and what the last character
printed was. What is written depends on the first only when line numbers are
asked for, and on the second only when something is written at the start of a
line or in front of a line break.
-/

import Dwdiff.Program

namespace Dwdiff

open Diff Outcome

variable {options : Options} {locale : Locale} {first second : Printing}

/-- Nothing is written at the start of a line or in front of a line break. -/
structure Unmarked (options : Options) : Prop where
  lineNumbers : options.lineNumbers = 0
  plain : options.needStartStop = true → options.colorMode = false ∧ options.repeatMarkers = false

/-- The same was written, and the variables that are looked at are the same. -/
structure SameOutput (options : Options) (first second : Screen) : Prop where
  output : first.output = second.output
  numbers : options.lineNumbers = 0 ∨
    first.oldLineNumber = second.oldLineNumber ∧ first.newLineNumber = second.newLineNumber
  breaks : Unmarked options ∨ first.lastWasLinefeed = second.lastWasLinefeed ∧
    first.lastWasCarriageReturn = second.lastWasCarriageReturn

/-! ### Characters -/

section Characters

variable {first second : Screen}

theorem countLine_output (side : Side) (screen : Screen) :
    (countLine side screen).output = screen.output := by
  cases side <;> rfl

theorem countWhitespaceLine_output (mode : Mode) (char : ReadChar) (screen : Screen) :
    (countWhitespaceLine mode char screen).output = screen.output := by
  unfold countWhitespaceLine
  split
  · cases mode <;> rfl
  · rfl

theorem countTokenLine_output (mode : Mode) (char : ReadChar) (screen : Screen) :
    (countTokenLine mode char screen).output = screen.output := by
  unfold countTokenLine
  split
  · cases mode <;> rfl
  · rfl

section Unmarked

variable (unmarked : Unmarked options)

include unmarked

theorem doPostLinefeed_output (mode : Mode) (screen : Screen) :
    (doPostLinefeed options mode screen).output = screen.output := by
  unfold doPostLinefeed
  split
  · have numbers : ¬ options.lineNumbers ≠ 0 := fun shown => shown unmarked.lineNumbers
    dsimp only
    rw [if_neg numbers]
    split
    · next changed =>
      obtain ⟨noColor, noMarkers⟩ := unmarked.plain (Bool.and_eq_true_iff.mp changed).1
      rw [noColor, noMarkers]
      rfl
    · rfl
  · rfl

theorem beforeLineBreak_output (mode : Mode) (char : ReadChar) (screen : Screen) :
    (beforeLineBreak options mode char screen).output = screen.output := by
  unfold beforeLineBreak
  split
  · next changed =>
    obtain ⟨noColor, noMarkers⟩ := unmarked.plain
      (Bool.and_eq_true_iff.mp (Bool.and_eq_true_iff.mp changed).1).1
    rw [noColor, noMarkers]
    rfl
  · rfl

theorem SameOutput.of_output (same : first.output = second.output) :
    SameOutput options first second :=
  ⟨same, .inl unmarked.lineNumbers, .inl unmarked⟩

end Unmarked

section Same

variable (same : SameOutput options first second)

include same

theorem SameOutput.append (emissions : List Emission) :
    SameOutput options { first with output := first.output ++ emissions }
      { second with output := second.output ++ emissions } :=
  ⟨congrArg (· ++ emissions) same.output, same.numbers, same.breaks⟩

theorem emit_same (emission : Emission) :
    SameOutput options (first.emit emission) (second.emit emission) :=
  same.append [emission]

theorem emitIf_same (condition : Bool) (emission : Emission) :
    SameOutput options (first.emitIf condition emission) (second.emitIf condition emission) := by
  cases condition with
  | true => exact emit_same same emission
  | false => exact same

theorem countLine_same (side : Side) :
    SameOutput options (countLine side first) (countLine side second) := by
  cases side with
  | old =>
    exact ⟨same.output, same.numbers.imp_right (And.imp_left (congrArg (· + 1))), same.breaks⟩
  | new =>
    exact ⟨same.output, same.numbers.imp_right (And.imp_right (congrArg (· + 1))), same.breaks⟩

theorem countWhitespaceLine_same (mode : Mode) (char : ReadChar) :
    SameOutput options (countWhitespaceLine mode char first)
      (countWhitespaceLine mode char second) := by
  unfold countWhitespaceLine
  split
  · cases mode with
    | common | add => exact countLine_same same .new
    | oldCommon | del => exact countLine_same same .old
  · exact same

theorem countTokenLine_same (mode : Mode) (char : ReadChar) :
    SameOutput options (countTokenLine mode char first) (countTokenLine mode char second) := by
  unfold countTokenLine
  split
  · cases mode with
    | common => exact countLine_same (countLine_same same .old) .new
    | add => exact countLine_same same .new
    | del => exact countLine_same same .old
    | oldCommon => exact same
  · exact same

theorem startWords_same (mode : Mode) :
    SameOutput options (startWords options mode first) (startWords options mode second) := by
  unfold startWords
  split
  · exact emit_same (emitIf_same same _ _) _
  · exact same

theorem stopWords_same (mode : Mode) :
    SameOutput options (stopWords options mode first) (stopWords options mode second) := by
  unfold stopWords
  split
  · exact emitIf_same (emit_same same _) _ _
  · exact same

theorem rememberLineBreak_same (char : ReadChar) :
    SameOutput options (rememberLineBreak char first) (rememberLineBreak char second) :=
  ⟨same.output, same.numbers,
    same.breaks.imp_right fun breaks => ⟨congrArg (char.equals 10 || ·) breaks.1, rfl⟩⟩

theorem doPostLinefeed_same (mode : Mode) :
    SameOutput options (doPostLinefeed options mode first)
      (doPostLinefeed options mode second) := by
  rcases same.breaks with unmarked | ⟨linefeed, carriageReturn⟩
  · refine .of_output unmarked ?_
    rw [doPostLinefeed_output unmarked, doPostLinefeed_output unmarked, same.output]
  have cleared : SameOutput options { first with lastWasLinefeed := false }
      { second with lastWasLinefeed := false } :=
    ⟨same.output, same.numbers, .inr ⟨rfl, carriageReturn⟩⟩
  have numbered : options.lineNumbers ≠ 0 → ∀ condition emission, SameOutput options
      ((Screen.emitIf { first with lastWasLinefeed := false } condition emission).emit
        (.printLineNumbers first.oldLineNumber first.newLineNumber))
      ((Screen.emitIf { second with lastWasLinefeed := false } condition emission).emit
        (.printLineNumbers second.oldLineNumber second.newLineNumber)) := by
    intro shown condition emission
    obtain ⟨oldNumber, newNumber⟩ := same.numbers.resolve_left shown
    have written := emit_same (emitIf_same cleared condition emission)
      (.printLineNumbers first.oldLineNumber first.newLineNumber)
    rwa [← oldNumber, ← newNumber] at written ⊢
  unfold doPostLinefeed
  rw [linefeed]
  split
  · dsimp only
    split
    · refine emitIf_same (emitIf_same ?_ _ _) _ _
      split
      · next shown => exact numbered shown _ _
      · exact cleared
    · split
      · next shown => exact numbered shown _ _
      · exact cleared
  · exact same

theorem beforeLineBreak_same (mode : Mode) (char : ReadChar) :
    SameOutput options (beforeLineBreak options mode char first)
      (beforeLineBreak options mode char second) := by
  rcases same.breaks with unmarked | ⟨-, carriageReturn⟩
  · refine .of_output unmarked ?_
    rw [beforeLineBreak_output unmarked, beforeLineBreak_output unmarked, same.output]
  · unfold beforeLineBreak
    rw [carriageReturn]
    split
    · exact emitIf_same (emitIf_same same _ _) _ _
    · exact same

end Same

theorem onlyIf_agree {State : Type} {related : State → State → Prop}
    {action : State → Except Failure State} (respects : Respects related action)
    (condition : Bool) : Respects related (onlyIf condition action) := by
  intro first second isRelated
  cases condition with
  | true => exact respects isRelated
  | false => exact isRelated

theorem addCharData_agree (char : ReadChar) (common : Bool) :
    Respects (SameOutput options) (addCharData char common) := by
  intro first second same
  cases char with
  | single byte => exact emit_same same _
  | cluster units =>
    refine (Agree.of_eq (fun _ => rfl) (filteredConvertAll units 0)).bind ?_
    rintro ⟨bytes, _⟩ _ rfl
    exact same.append _

theorem overstrike_agree (mode : Mode) (char : ReadChar) :
    Respects (SameOutput options) (overstrike mode char) := by
  intro first second same
  cases mode with
  | add => exact (addCharData_agree char false same).bind fun _ _ same' => emit_same same' _
  | del => exact emit_same (emit_same same _) _
  | common | oldCommon => exact same

theorem handleWhitespaceChar_agree (print : Bool) (mode : Mode) (char : ReadChar) :
    Respects (SameOutput options) (handleWhitespaceChar options print mode char) := by
  have printed : Respects (SameOutput options) (printWhitespaceChar options mode char) := by
    intro first second same
    have started := doPostLinefeed_same same mode
    refine (addCharData_agree char mode.isCommon ?_).bind
      fun _ _ same' => rememberLineBreak_same same' char
    split
    · exact emit_same (emit_same started _) _
    · exact beforeLineBreak_same started mode char
  exact fun first second same => (onlyIf_agree printed print same).bind
    fun _ _ same' => countWhitespaceLine_same same' mode char

theorem handleTokenChar_agree (print : Bool) (mode : Mode) (char : ReadChar) :
    Respects (SameOutput options) (handleTokenChar options print mode char) := by
  have printed : Respects (SameOutput options) (printTokenChar options mode char) := by
    intro first second same
    have started := beforeLineBreak_same (doPostLinefeed_same same mode) mode char
    refine ((onlyIf_agree (overstrike_agree mode char) _ started).bind
      fun _ _ same' => addCharData_agree char _ same').bind ?_
    exact fun _ _ same' => rememberLineBreak_same same' char
  exact fun first second same => (onlyIf_agree printed print same).bind
    fun _ _ same' => countTokenLine_same same' mode char

theorem printCommonChar_agree (char : ReadChar) :
    Respects (SameOutput options) (printCommonChar options char) := fun _ _ same =>
  (addCharData_agree char true (doPostLinefeed_same same .common)).bind
    fun _ _ same' => rememberLineBreak_same same' char

end Characters

/-! ### Loops -/

section Loops

variable {State : Type} {related : State → State → Prop}

/-- The same piece is read, and the bodies agree. -/
theorem forPiece_agree {body : ReadChar → State → Except Failure (Bool × State)}
    (bodies : ∀ char first second, related first second →
      Agree (fun one other => one.1 = other.1 ∧ related one.2 other.2) (body char first)
        (body char second)) (fuel : Nat) :
    ∀ (stream : Stream) {first second : State}, related first second →
      Agree (fun one other => one.1 = other.1 ∧ one.2.1 = other.2.1 ∧ related one.2.2 other.2.2)
        (forPiece options locale body fuel stream first)
        (forPiece options locale body fuel stream second) := by
  induction fuel with
  | zero => exact fun _ _ _ _ => rfl
  | succ fuel inductionHypothesis =>
    intro stream first second isRelated
    unfold forPiece
    refine (Agree.of_eq (fun _ => rfl) (nextOfPiece options locale stream)).bind ?_
    rintro ⟨next, stream'⟩ _ rfl
    cases next with
    | inr pieceEnd => exact ⟨rfl, rfl, isRelated⟩
    | inl char =>
      refine (bodies char first second isRelated).bind ?_
      rintro ⟨stop, one⟩ ⟨stop', other⟩ ⟨sameStop, isRelated'⟩
      obtain rfl : stop = stop' := sameStop
      cases stop with
      | true => exact ⟨rfl, rfl, isRelated'⟩
      | false => exact inductionHypothesis stream' isRelated'

theorem forPiece_always_agree {body : ReadChar → State → Except Failure State}
    (bodies : ∀ char, Respects related (body char)) (fuel : Nat) (stream : Stream)
    {first second : State} (isRelated : related first second) :
    Agree (fun one other => one.1 = other.1 ∧ one.2.1 = other.2.1 ∧ related one.2.2 other.2.2)
      (forPiece options locale (always body) fuel stream first)
      (forPiece options locale (always body) fuel stream second) := by
  refine forPiece_agree (fun char one other isRelated => ?_) fuel stream isRelated
  exact (bodies char isRelated).bind fun _ _ isRelated' => ⟨rfl, isRelated'⟩

theorem forString_agree {body : ReadChar → State → Except Failure State}
    (bodies : ∀ char, Respects related (body char)) (fuel : Nat) :
    ∀ stream, Respects related (forString options locale body fuel stream) := by
  induction fuel with
  | zero => exact fun _ _ _ _ => rfl
  | succ fuel inductionHypothesis =>
    intro stream first second isRelated
    unfold forString
    refine (Agree.of_eq (fun _ => rfl) (readNextChar options locale stream)).bind ?_
    rintro ⟨char, stream'⟩ _ rfl
    cases char with
    | none => exact isRelated
    | some char =>
      exact (bodies char isRelated).bind fun _ _ isRelated' =>
        inductionHypothesis stream' isRelated'

end Loops

/-! ### Pieces -/

/-- Two states that only differ in what is not written. -/
structure Alike (options : Options) (first second : Printing) : Prop where
  file : first.file = second.file
  screen : SameOutput options first.screen second.screen
  lastWasDelete : first.lastWasDelete = second.lastWasDelete
  baseHashMax : first.baseHashMax = second.baseHashMax
  tables : first.hashtable = Hashtable.empty ∧ second.hashtable = Hashtable.empty

section Pieces

section Alike

variable (alike : Alike options first second)

include alike

theorem Alike.onScreen {screen screen' : Screen} (same : SameOutput options screen screen') :
    Alike options { first with screen := screen } { second with screen := screen' } :=
  ⟨alike.file, same, alike.lastWasDelete, alike.baseHashMax, alike.tables⟩

theorem Alike.setFile (side : Side) (file : InputFile) :
    Alike options (first.setFile side file) (second.setFile side file) := by
  have files : (first.setFile side file).file = (second.setFile side file).file := by
    have old := congrFun alike.file .old
    have new := congrFun alike.file .new
    funext other
    cases side <;> cases other <;> first | rfl | exact old | exact new
  cases side <;>
    exact ⟨files, alike.screen, alike.lastWasDelete, alike.baseHashMax, alike.tables⟩

theorem Alike.record (event : Event) : Alike options (first.record event) (second.record event) :=
  ⟨by funext side; cases side; exacts [congrFun alike.file .old, congrFun alike.file .new],
    alike.screen, alike.lastWasDelete,
    alike.baseHashMax, alike.tables⟩

theorem Alike.newFile : first.newFile = second.newFile :=
  congrFun alike.file .new

theorem Alike.advance (side : Side) : Alike options (first.advance side) (second.advance side) := by
  unfold Printing.advance
  rw [alike.file]
  exact alike.setFile side _

theorem Alike.step (kind kind' : StepKind) :
    Alike options (first.step kind) (second.step kind') := by
  refine ⟨?_, alike.screen, alike.lastWasDelete, alike.baseHashMax, alike.tables⟩
  funext side
  cases side with
  | old => exact congrFun alike.file .old
  | new => exact congrFun alike.file .new

theorem Alike.afterWhitespace (side : Side) (stream : Stream) :
    Alike options (first.afterWhitespace options locale side stream)
      (second.afterWhitespace options locale side stream) := by
  unfold Printing.afterWhitespace
  rw [alike.file]
  dsimp only
  split
  · exact alike
  · exact (alike.setFile side _).record _

theorem loadNextWhitespace_agree (side : Side) :
    Agree (fun one other => one.1 = other.1 ∧ Alike options one.2 other.2)
      (loadNextWhitespace options locale side first)
      (loadNextWhitespace options locale side second) := by
  unfold loadNextWhitespace
  rw [alike.file]
  refine (Agree.of_eq (fun _ => rfl) _).bind ?_
  rintro ⟨_, stream, buffer, newlineFound⟩ _ rfl
  exact ⟨rfl, (alike.setFile side _).record _⟩

theorem Alike.finishChange (command : Command) (change : Change) :
    Alike options (Dwdiff.finishChange options command change first)
      (Dwdiff.finishChange options command change second) := by
  have file := (alike.step (.difference command change) (.difference command change)).file
  refine ⟨file, ?_, ?_, alike.baseHashMax, alike.tables⟩
  · show SameOutput options (if options.needMarkers then _ else first.screen)
      (if options.needMarkers then _ else second.screen)
    split
    · have written := emit_same alike.screen (.puts ("\n" ++ markerLine))
      exact ⟨written.output, written.numbers, written.breaks.imp_right (And.imp_left fun _ => rfl)⟩
    · exact alike.screen
  · show (if _ then true else first.lastWasDelete) = if _ then true else second.lastWasDelete
    rw [alike.lastWasDelete]

theorem Alike.noticed :
    Alike options { first with differences := 1 } { second with differences := 1 } :=
  ⟨alike.file, alike.screen, alike.lastWasDelete, alike.baseHashMax, alike.tables⟩

end Alike

/-- The two loops of `handleSynchronizedNextWhitespace` are at the same place. -/
def SameLoop (options : Options) (first second : Screen × Stream × Bool) : Prop :=
  SameOutput options first.1 second.1 ∧ first.2 = second.2

theorem followLine_agree (sideA sideB : Side) :
    Respects (SameLoop options) (followLine options locale sideA sideB) := by
  rintro ⟨screen, stream, valid⟩ ⟨screen', _⟩ ⟨same, rfl⟩
  have counted := countLine_same same sideA
  cases valid with
  | false => exact ⟨counted, rfl⟩
  | true =>
    refine (forPiece_agree (fun char one other same => ?_) _ stream counted).bind ?_
    · unfold toNextLine
      cases char.equals 10 with
      | false => exact ⟨rfl, same⟩
      | true => exact ⟨rfl, countLine_same same sideB⟩
    · rintro ⟨pieceEnd, stream', screen⟩ ⟨_, _, screen'⟩ ⟨rfl, rfl, same'⟩
      exact ⟨same', rfl⟩

theorem skipRest_agree (sideB : Side) {one other : Screen × Stream × Bool}
    (same : SameLoop options one other) :
    Agree (fun one other => SameOutput options one.1 other.1 ∧ one.2 = other.2)
      (skipRest options locale sideB one) (skipRest options locale sideB other) := by
  obtain ⟨screen, stream, valid⟩ := one
  obtain ⟨screen', _⟩ := other
  obtain ⟨sameOutput, rfl⟩ := same
  cases valid with
  | false => exact ⟨sameOutput, rfl⟩
  | true =>
    refine (forPiece_always_agree (fun char one other same => ?_) _ stream sameOutput).bind ?_
    · show SameOutput options _ _
      split
      · exact countLine_same same sideB
      · exact same
    · rintro ⟨_, stream', screen⟩ ⟨_, _, screen'⟩ ⟨-, rfl, same'⟩
      exact ⟨same', rfl⟩

theorem handleNextWhitespace_agree (side : Side) (print : Bool) (mode : Mode) :
    Respects (Alike options) (handleNextWhitespace options locale side print mode) := by
  have chars := @handleWhitespaceChar_agree options print mode
  intro first second alike
  unfold handleNextWhitespace
  rw [alike.file]
  dsimp only
  split
  · exact (forString_agree chars _ _ alike.screen).bind
      fun screen screen' same => (alike.onScreen same).setFile side _
  · refine (forPiece_always_agree chars _ _ alike.screen).bind ?_
    rintro ⟨_, stream, screen⟩ ⟨_, _, screen'⟩ ⟨-, rfl, same⟩
    exact ((alike.onScreen same).setFile side _).record _

theorem synchronize_agree (sideA sideB : Side) (char : ReadChar) :
    Respects (SameLoop options) (synchronize options locale sideA sideB char) := by
  rintro ⟨screen, loop⟩ ⟨screen', _⟩ ⟨same, rfl⟩
  refine (onlyIf_agree (printCommonChar_agree char) _ same).bind ?_
  exact fun printed printed' samePrinted =>
    onlyIf_agree (followLine_agree sideA sideB) _ ⟨samePrinted, rfl⟩

theorem handleSynchronizedNextWhitespace_agree (printNew : Bool) :
    Respects (Alike options) (handleSynchronizedNextWhitespace options locale printNew) := by
  intro first second alike
  unfold handleSynchronizedNextWhitespace
  rw [alike.file]
  dsimp only
  refine (forPiece_always_agree (synchronize_agree _ _) _ _
    (show SameLoop options (first.screen, _, true) (second.screen, _, true) from
      ⟨alike.screen, rfl⟩)).bind ?_
  rintro ⟨_, streamA, one⟩ ⟨_, _, other⟩ ⟨-, rfl, same⟩
  refine (skipRest_agree _ same).bind ?_
  rintro ⟨screen, streamB⟩ ⟨screen', _⟩ ⟨same', rfl⟩
  exact ((alike.onScreen same').afterWhitespace _ _).afterWhitespace _ _

theorem printParaDelim_agree (mode : Mode) :
    Respects (SameOutput options) (printParaDelim options locale mode) :=
  forString_agree (fun char _ _ same =>
    addCharData_agree char _ (doPostLinefeed_same same mode)) _ _

theorem handleNextToken_agree (side : Side) (print : Bool) (mode : Mode) :
    Respects (Alike options) (handleNextToken options locale side print mode) := by
  intro first second alike
  unfold handleNextToken
  rw [alike.file]
  dsimp only
  let SameRound : Bool × Screen → Bool × Screen → Prop := fun one other =>
    one.1 = other.1 ∧ SameOutput options one.2 other.2
  have bodies : ∀ char, Respects SameRound (handleTokenRound options print mode char) := by
    rintro char one other ⟨-, same⟩
    exact (handleTokenChar_agree print mode char same).bind
      fun _ _ same' => ⟨rfl, same'⟩
  refine (forPiece_always_agree bodies _ _
    (show SameRound (true, first.screen) (true, second.screen) from ⟨rfl, alike.screen⟩)).bind ?_
  rintro ⟨pieceEnd, stream, empty, screen⟩ ⟨_, _, _, screen'⟩ ⟨rfl, rfl, rfl, same⟩
  refine (onlyIf_agree (printParaDelim_agree mode) _ same).bind fun _ _ same' => ?_
  exact ((alike.onScreen same').setFile side _).record _

end Pieces

/-! ### Words -/

theorem handleOneWord_agree (side : Side) (print : Bool) (mode : Mode) :
    Respects (Alike options) (handleOneWord options locale side print mode) := fun _ _ alike =>
  (handleNextWhitespace_agree side print mode alike).bind fun _ _ alike' =>
    (handleNextToken_agree side print mode alike').bind
      fun _ _ alike'' => alike''.advance side

theorem handleWord_agree (side : Side) (print : Bool) (mode : Mode) (idx : Int) (fuel : Nat) :
    Respects (Alike options) (handleWord options locale side print mode idx fuel) := by
  induction fuel with
  | zero =>
    intro first second alike
    rw [handleWord, handleWord, alike.file]
    split
    · exact rfl
    · exact alike
  | succ fuel inductionHypothesis =>
    intro first second alike
    rw [handleWord, handleWord, alike.file]
    split
    · exact (handleOneWord_agree side print mode alike).bind
        fun _ _ alike' => inductionHypothesis alike'
    · exact alike

theorem handleCommonWord_agree (print : Bool) :
    Respects (Alike options) (handleCommonWord options locale print) := by
  intro first second alike
  unfold handleCommonWord
  rw [alike.lastWasDelete]
  refine (handleSynchronizedNextWhitespace_agree _ alike).bind fun one other alike' => ?_
  have cleared : Alike options { one with lastWasDelete := false }
      { other with lastWasDelete := false } :=
    ⟨alike'.file, alike'.screen, rfl, alike'.baseHashMax, alike'.tables⟩
  exact (handleNextToken_agree .new print .common cleared).bind
    fun _ _ alike'' => handleNextToken_agree .old false .oldCommon alike''

theorem printCommonWord_agree : Respects (Alike options) (printCommonWord options locale) :=
  fun _ _ alike => (handleCommonWord_agree options.printCommon alike).bind
    fun _ _ alike' => ((alike'.advance .new).advance .old).step _ _

theorem printToCommonWord_agree (idx : Int) (fuel : Nat) :
    Respects (Alike options) (printToCommonWord options locale idx fuel) := by
  induction fuel with
  | zero =>
    intro first second alike
    rw [printToCommonWord, printToCommonWord, alike.newFile]
    split
    · exact rfl
    · exact alike
  | succ fuel inductionHypothesis =>
    intro first second alike
    rw [printToCommonWord, printToCommonWord, alike.newFile]
    split
    · exact (printCommonWord_agree alike).bind fun _ _ alike' => inductionHypothesis alike'
    · exact alike

theorem printWords_agree (start count : Int) (side : Side) (print : Bool) (mode : Mode) :
    Respects (Alike options) (printWords options locale start count side print mode) := by
  intro first second alike
  unfold printWords
  rw [alike.file]
  refine (Agree.of_eq (fun _ => rfl) _).bind fun _ _ _ => ?_
  refine (handleNextWhitespace_agree side print _ alike).bind fun one other alike' => ?_
  have started : Alike options
      (one.onScreen fun screen => if print then
        startWords options mode (doPostLinefeed options .common screen) else screen)
      (other.onScreen fun screen => if print then
        startWords options mode (doPostLinefeed options .common screen) else screen) := by
    refine alike'.onScreen ?_
    split
    · exact startWords_same (doPostLinefeed_same alike'.screen _) mode
    · exact alike'.screen
  refine (handleNextToken_agree side print mode started).bind fun _ _ alike'' => ?_
  refine (handleWord_agree side print mode _ _ (alike''.advance side)).bind ?_
  intro last last' alikeLast
  refine alikeLast.onScreen ?_
  split
  · exact stopWords_same (doPostLinefeed_same alikeLast.screen _) mode
  · exact alikeLast.screen

theorem printEndLoop_agree (fuel : Nat) :
    Respects (Alike options) (printEndLoop options locale fuel) := by
  induction fuel with
  | zero => exact fun _ _ _ => rfl
  | succ fuel inductionHypothesis =>
    intro first second alike
    rw [printEndLoop_succ, printEndLoop_succ, alike.newFile]
    split
    · exact alike
    · exact (handleCommonWord_agree true alike).bind
        fun _ _ alike' => inductionHypothesis (alike'.step _ _)

theorem printEnd_agree : Respects (Alike options) (printEnd options locale) := by
  intro first second alike
  unfold printEnd
  rw [alike.newFile]
  split
  · exact printEndLoop_agree _ alike
  · exact alike

theorem prepareWhitespace_agree (alike : Alike options first second) :
    Agree (fun one other => one.1 = other.1 ∧ Alike options one.2 other.2)
      (prepareWhitespace options locale first) (prepareWhitespace options locale second) := by
  unfold prepareWhitespace
  refine (loadNextWhitespace_agree alike .old).bind ?_
  rintro ⟨oldNewline, one⟩ ⟨_, other⟩ ⟨rfl, alikeOld⟩
  cases oldNewline with
  | false => exact ⟨rfl, alikeOld⟩
  | true =>
    refine (loadNextWhitespace_agree alikeOld .new).bind ?_
    rintro ⟨newNewline, one'⟩ ⟨_, other'⟩ ⟨rfl, alikeNew⟩
    cases newNewline with
    | false => exact ⟨rfl, alikeNew⟩
    | true =>
      dsimp only at alikeNew
      simp only [if_true]
      rw [alikeNew.lastWasDelete]
      refine (handleSynchronizedNextWhitespace_agree _ alikeNew).bind ?_
      intro last last' alikeLast
      refine ⟨rfl, ?_, alikeLast.screen, alikeLast.lastWasDelete, alikeLast.baseHashMax,
        alikeLast.tables⟩
      have old : last.oldFile = last'.oldFile := congrFun alikeLast.file .old
      funext side
      cases side with
      | old => exact congrArg (fun file => { file with whitespaceBuffer := [] }) old
      | new =>
        exact congrArg (fun file => { file with whitespaceBuffer := [0x20] }) alikeLast.newFile

/-! ### The script -/

section Script

/-- The comparison leaves the table empty. -/
theorem compareRange_table {baseHashMax : Nat} {oldTokens newTokens : List Nat}
    {baseRange : Option Range} {context context' : Nat} {comparison : Comparing}
    {table : Hashtable}
    (returns : compareRange options baseHashMax oldTokens newTokens baseRange context
      Hashtable.empty = .ok (context', comparison, table)) : table = Hashtable.empty := by
  unfold compareRange at returns
  dsimp only at returns
  split at returns
  · obtain ⟨_, -, returns⟩ := bind_eq_ok.mp returns
    exact (Prod.mk.inj (Prod.mk.inj (Except.ok.inj returns)).2).2.symm
  · obtain ⟨⟨_, _⟩, -, returns⟩ := bind_eq_ok.mp returns
    obtain ⟨⟨_, _⟩, -, returns⟩ := bind_eq_ok.mp returns
    obtain ⟨_, -, returns⟩ := bind_eq_ok.mp returns
    exact (Prod.mk.inj (Prod.mk.inj (Except.ok.inj returns)).2).2.symm

theorem printChangedWords_agree (reverseDeleteAdd : Bool) (command : Command) (change : Change) :
    Respects (Alike options)
      (printChangedWords options locale reverseDeleteAdd command change) := by
  have deleted : Respects (Alike options) (printDeletedWords options locale change) :=
    printWords_agree _ _ _ _ _
  have added : Respects (Alike options) (printAddedWords options locale change) :=
    printWords_agree _ _ _ _ _
  intro first second alike
  unfold printChangedWords
  cases reverseDeleteAdd with
  | true => exact (added alike).bind fun _ _ alike' => deleted alike'
  | false =>
    exact (onlyIf_agree deleted _ alike).bind fun _ _ alike' => onlyIf_agree added _ alike'

theorem printDifference_agree (command : Command) (change : Change) :
    Respects (Alike options) (printDifference options locale command change) := by
  intro first second alike
  have loaded : Agree (fun one other => one.1 = other.1 ∧ Alike options one.2 other.2)
      (loadWhitespace options locale command first)
      (loadWhitespace options locale command second) := by
    unfold loadWhitespace
    split
    · exact prepareWhitespace_agree alike
    · exact ⟨rfl, alike⟩
  refine loaded.bind ?_
  rintro ⟨reverseDeleteAdd, one⟩ ⟨_, other⟩ ⟨rfl, alike'⟩
  exact (printChangedWords_agree reverseDeleteAdd command change alike').bind
    fun _ _ alike'' => alike''.finishChange command change

theorem printChange_agree (command : Command) (change : Change) :
    Respects (Alike options) (printChange options locale command change) := by
  intro first second alike
  unfold printChange
  rw [alike.newFile]
  exact (printToCommonWord_agree _ _ alike).bind
    fun _ _ alike' => printDifference_agree command change alike'

section Changes

variable {recurse : Range → Nat → Printing → Except Failure Printing}
  (recursion : ∀ range context, Respects (Alike options) (recurse range context))

include recursion

theorem doChange_agree (baseRange : Option Range) (context : Nat) (change : Change) :
    Respects (Alike options) (doChange options locale recurse baseRange context change) := by
  intro first second alike
  unfold doChange
  dsimp only
  split
  · refine (Agree.of_eq (fun _ => rfl) (trimChange context (inBase baseRange change))).bind ?_
    rintro ⟨command, trimmed⟩ _ rfl
    dsimp only
    split
    · exact recursion _ _ alike.noticed
    · exact printChange_agree command trimmed alike.noticed
  · exact printChange_agree _ _ alike.noticed

theorem doChanges_agree (baseRange : Option Range) (context : Nat) (changes : List Change) :
    Respects (Alike options) (doChanges options locale recurse baseRange context changes) := by
  induction changes with
  | nil => exact fun _ _ alike => alike
  | cons change changes inductionHypothesis =>
    exact fun first second alike =>
      (doChange_agree recursion baseRange context change alike).bind
        fun _ _ alike' => inductionHypothesis alike'

end Changes

theorem doDiffInternal_agree (depth : Nat) : ∀ (baseRange : Option Range) (context : Nat),
    Respects (Alike options) (doDiffInternal options locale depth baseRange context) := by
  induction depth with
  | zero => exact fun _ _ _ _ _ => rfl
  | succ depth inductionHypothesis =>
    intro baseRange context first second alike
    have old : first.oldFile = second.oldFile := congrFun alike.file .old
    unfold doDiffInternal
    rw [alike.baseHashMax, old, alike.newFile, alike.tables.1, alike.tables.2]
    cases compares : compareRange options second.baseHashMax second.oldFile.diffTokens
        second.newFile.diffTokens baseRange context Hashtable.empty with
    | error failure => exact rfl
    | ok result =>
      obtain ⟨context', comparison, table⟩ := result
      obtain rfl := compareRange_table compares
      refine doChanges_agree (fun range => inductionHypothesis (some range)) baseRange
        context' comparison.script ⟨?_, emitIf_same alike.screen _ _, alike.lastWasDelete, rfl, rfl,
          rfl⟩
      funext side
      cases side <;> rfl

/-- Two runs of `doDiff` that start from states that only differ in what is not written. -/
theorem doDiff_agree (alike : Alike options first.rewound second.rewound) :
    Agree (Alike options) (doDiff options locale first) (doDiff options locale second) :=
  (doDiffInternal_agree _ none _ alike).bind
    fun _ _ alike' => printEnd_agree alike'

end Script

end Dwdiff
