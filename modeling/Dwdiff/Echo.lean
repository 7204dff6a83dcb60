/-
This file is about the text that is written when nothing but the text itself is
asked for: no line numbers, colours, overstriking or repeated markers. It proves
that the new file is written as it is when deleted words are not printed and the
markers of inserted words are empty.
-/

import Dwdiff.Alike
import Dwdiff.Buffer
import Dwdiff.Prepared
import Dwdiff.Rounds

namespace Dwdiff

open Diff Outcome
open Failure (OfText)

variable {options : Options} {locale : Locale} {texts : Side → Text} {hashMax : Nat}
  {tracks : Side → Track} {state : Printing} {side : Side}

/-! ### What is written -/

/-- What a call writes without context lines. -/
def Emission.text (width : Nat) : Emission → List UInt8
  | .addchar c _ => [c]
  | .writeString string => string
  | .printLineNumbers oldLineNumber newLineNumber =>
    lineNumbersText width oldLineNumber newLineNumber
  | .puts string => string.toUTF8.toList ++ [10]

/-- What the calls write without context lines. -/
def written (width : Nat) (emissions : List Emission) : List UInt8 :=
  emissions.flatMap (Emission.text width)

@[simp] theorem written_append (width : Nat) (emissions more : List Emission) :
    written width (emissions ++ more) = written width emissions ++ written width more :=
  List.flatMap_append

theorem performAll_output {contextLines : Nat} (width : Nat) (emissions : List Emission)
    (buffers : Buffers contextLines) :
    (buffers.performAll false width emissions).output =
      buffers.output ++ written width emissions := by
  induction emissions generalizing buffers with
  | nil => simp [Buffers.performAll, written]
  | cons emission emissions inductionHypothesis =>
    have first : (buffers.perform false width emission).output =
        buffers.output ++ emission.text width := by
      cases emission <;> rfl
    rw [Buffers.performAll, List.foldl_cons]
    refine (inductionHypothesis _).trans ?_
    rw [first, List.append_assoc]
    rfl

/-- The bytes of a character as they are printed. -/
def ReadChar.text : ReadChar → List UInt8
  | .single byte => [byte]
  | .cluster units =>
    match filteredConvertAll units 0 with
    | .ok (bytes, _) => bytes
    | .error _ => []

/-- The bytes of a piece as they are printed. -/
def pieceText (piece : List ReadChar) : List UInt8 := piece.flatMap ReadChar.text

theorem pieceText_snoc (piece : List ReadChar) (char : ReadChar) :
    pieceText (piece ++ [char]) = pieceText piece ++ char.text := by
  rw [pieceText, List.flatMap_append, List.flatMap_singleton, pieceText]

theorem pieceText_single (bytes : List UInt8) : pieceText (bytes.map .single) = bytes := by
  induction bytes with
  | nil => rfl
  | cons byte bytes inductionHypothesis => exact congrArg (byte :: ·) inductionHypothesis

/-- Nothing but the text and the markers around changes is written. -/
structure Unadorned (options : Options) : Prop where
  lineNumbers : options.lineNumbers = 0
  colorMode : options.colorMode = false
  repeatMarkers : options.repeatMarkers = false
  printer : options.printer = false
  less : options.less = false
  paraDelim : options.paraDelim = false
  needMarkers : options.needMarkers = false

/-- The screen behind some text. -/
def Wrote (width : Nat) (screen : Screen) (text : List UInt8) (after : Screen) : Prop :=
  written width after.output = written width screen.output ++ text

section Characters

variable (width : Nat)

theorem addCharData_wrote (char : ReadChar) (common : Bool) (screen : Screen) :
    Meets OfText (Wrote width screen char.text) (addCharData char common screen) := by
  cases char with
  | single byte =>
    show written width (screen.output ++ _) = _
    rw [written_append]
    rfl
  | cluster units =>
    have converts := filteredConvertAll_meets units 0
    unfold addCharData
    dsimp only
    cases isText : filteredConvertAll units 0 with
    | error failure =>
      rw [isText] at converts
      exact converts
    | ok result =>
      have bytes : written width (result.1.map fun byte => Emission.addchar byte common) =
          result.1 := by
        generalize result.1 = bytes
        induction bytes with
        | nil => rfl
        | cons byte bytes inductionHypothesis => exact congrArg (byte :: ·) inductionHypothesis
      show written width (screen.output ++ _) = _
      rw [written_append, bytes, ReadChar.text, isText]

theorem Unadorned.unmarked (unadorned : Unadorned options) : Unmarked options :=
  ⟨unadorned.lineNumbers, fun _ => ⟨unadorned.colorMode, unadorned.repeatMarkers⟩⟩

variable {width}

theorem Wrote.congr {screen screen' after after' : Screen} {text : List UInt8}
    (wrote : Wrote width screen text after) (before : screen'.output = screen.output)
    (behind : after'.output = after.output) : Wrote width screen' text after' := by
  rw [Wrote, before, behind]
  exact wrote

variable (width)

/-- Whitespace is written as it is, or not at all. -/
theorem handleWhitespaceChar_wrote (unadorned : Unadorned options) (print : Bool) (mode : Mode)
    (char : ReadChar) (screen : Screen) :
    Meets OfText (Wrote width screen (if print then char.text else []))
      (handleWhitespaceChar options print mode char screen) := by
  unfold handleWhitespaceChar
  cases print with
  | false =>
    show written width _ = _
    rw [countWhitespaceLine_output, if_neg Bool.false_ne_true, List.append_nil]
  | true =>
    have before : ∀ screen, (if (options.less && !char.equals 10 && !char.equals 13 &&
        mode == .del) = true then (screen.emit (.addchar 0x5F mode.isCommon)).emit
          (.addchar 8 mode.isCommon)
        else beforeLineBreak options mode char screen).output = screen.output := by
      intro screen
      rw [unadorned.less]
      exact beforeLineBreak_output unadorned.unmarked mode char screen
    show Meets _ _ (printWhitespaceChar options mode char screen >>= _)
    unfold printWhitespaceChar
    refine (((addCharData_wrote width char mode.isCommon _).bind fun after wrote => ?_ :
      Meets OfText (Wrote width screen char.text) _)).bind fun after wrote => ?_
    · exact wrote.congr ((before _).trans (doPostLinefeed_output unadorned.unmarked mode
        screen)).symm rfl
    · exact wrote.congr rfl (countWhitespaceLine_output mode char after)

/-- The characters of a token are written as they are, or not at all. -/
theorem handleTokenChar_wrote (unadorned : Unadorned options) (print : Bool) (mode : Mode)
    (char : ReadChar) (screen : Screen) :
    Meets OfText (Wrote width screen (if print then char.text else []))
      (handleTokenChar options print mode char screen) := by
  unfold handleTokenChar
  cases print with
  | false =>
    show written width _ = _
    rw [countTokenLine_output, if_neg Bool.false_ne_true, List.append_nil]
  | true =>
    show Meets _ _ (printTokenChar options mode char screen >>= _)
    unfold printTokenChar addTokenChar
    rw [unadorned.printer, unadorned.less]
    refine (((addCharData_wrote width char mode.isCommon _).bind fun after wrote => ?_ :
      Meets OfText (Wrote width screen char.text) _)).bind fun after wrote => ?_
    · exact wrote.congr ((beforeLineBreak_output unadorned.unmarked mode char _).trans
        (doPostLinefeed_output unadorned.unmarked mode screen)).symm rfl
    · exact wrote.congr rfl (countTokenLine_output mode char after)

theorem printCommonChar_wrote (unadorned : Unadorned options) (char : ReadChar) (screen : Screen) :
    Meets OfText (Wrote width screen char.text) (printCommonChar options char screen) := by
  unfold printCommonChar
  refine (addCharData_wrote width char true _).bind fun after wrote => ?_
  exact wrote.congr (doPostLinefeed_output unadorned.unmarked .common screen).symm rfl

variable {width}

theorem Wrote.refl (screen : Screen) : Wrote width screen [] screen := (List.append_nil _).symm

theorem Wrote.trans {first second third : Screen} {text more : List UInt8}
    (wrote : Wrote width first text second) (wrote' : Wrote width second more third) :
    Wrote width first (text ++ more) third := by
  rw [Wrote, wrote', wrote, List.append_assoc]

/-- Empty markers write nothing. -/
theorem written_empty (screen : Screen) :
    written width (screen.emit (.writeString [])).output = written width screen.output :=
  (written_append _ _ _).trans (List.append_nil _)

theorem startWords_silent (unadorned : Unadorned options) {mode : Mode}
    (empty : startMarker options mode = []) (screen : Screen) :
    written width (startWords options mode screen).output = written width screen.output := by
  unfold startWords
  rw [unadorned.colorMode, empty]
  split
  · exact written_empty screen
  · rfl

theorem stopWords_silent (unadorned : Unadorned options) {mode : Mode}
    (empty : stopMarker options mode = []) (screen : Screen) :
    written width (stopWords options mode screen).output = written width screen.output := by
  unfold stopWords
  rw [unadorned.colorMode, empty]
  split
  · exact written_empty screen
  · rfl

end Characters

/-! ### Pieces -/

section Pieces

variable {calls : List (Side × Mode)}

/-- The text of a piece that is printed or not. -/
def shownText (print : Bool) (piece : List ReadChar) : List UInt8 :=
  if print then pieceText piece else []

theorem shownText_snoc (print : Bool) (piece : List ReadChar) (char : ReadChar) :
    shownText print (piece ++ [char]) =
      shownText print piece ++ if print then char.text else [] := by
  cases print with
  | false => rfl
  | true => exact pieceText_snoc piece char

theorem shownText_nil (print : Bool) : shownText print [] = [] := by cases print <;> rfl

/-- A loop whose rounds write the characters, or do not, behind some text. -/
theorem gathers_wrote {width : Nat} {print : Bool}
    {body : ReadChar → Screen → Except Failure Screen}
    (writes : ∀ char screen, Meets OfText
      (Wrote width screen (if print then char.text else [])) (body char screen))
    (before : List UInt8) (screen : Screen) :
    Gathers OfText
      (fun consumed => Wrote width screen (before ++ shownText print consumed)) body := by
  intro consumed char between wrote
  refine (writes char between).mono fun after wrote' => ?_
  show Wrote width screen (before ++ shownText print (consumed ++ [char])) after
  rw [shownText_snoc, ← List.append_assoc]
  exact Wrote.trans wrote wrote'

variable (width : Nat) (unadorned : Unadorned options)

include unadorned

/-- A run is written as it is, or not at all. -/
theorem handleNextWhitespace_wrote
    (represents : Represents options locale texts hashMax tracks calls state)
    (fresh : (tracks side).Fresh) (le : (tracks side).modes.length ≤ (texts side).ids.length)
    (print : Bool) (mode : Mode) :
    Meets OfText (fun final => ∃ screen stream,
        Wrote width state.screen (shownText print ((texts side).run (tracks side))) screen ∧
        final = (({ state with screen := screen } : Printing).setFile side
          { state.file side with whitespace := stream }).record
            (.run side (texts side).runs[(tracks side).modes.length]?))
      (handleNextWhitespace options locale side print mode state) := by
  refine handleNextWhitespace_rounds represents le fresh
    (gathers_wrote (handleWhitespaceChar_wrote width unadorned print mode) [] state.screen) ?_
  rw [shownText_nil]
  exact Wrote.refl _

/-- The same for a run in the buffer. -/
theorem handleNextWhitespace_buffer_wrote (singleByte : options.utf8Mode = false)
    (used : (state.file side).whitespaceBufferUsed = true) (print : Bool) (mode : Mode) :
    Meets OfText (fun final => ∃ screen,
        Wrote width state.screen (if print then (state.file side).whitespaceBuffer else []) screen ∧
        final = ({ state with screen := screen } : Printing).setFile side
          { state.file side with whitespaceBuffer := [], whitespaceBufferUsed := false })
      (handleNextWhitespace options locale side print mode state) := by
  have rounds := @handleNextWhitespace_buffer options locale state side singleByte used print mode _
    (gathers_wrote (handleWhitespaceChar_wrote width unadorned print mode) [] state.screen)
    (by rw [shownText_nil]; exact Wrote.refl _)
  rw [shownText, pieceText_single] at rounds
  exact rounds

/-- A token is written as it is, or not at all. -/
theorem handleNextToken_wrote
    (represents : Represents options locale texts hashMax tracks calls state)
    (le : (tracks side).modes.length ≤ (texts side).ids.length) (print : Bool) (mode : Mode) :
    Meets OfText (fun final => ∃ screen stream,
        Wrote width state.screen (shownText print ((texts side).token (tracks side))) screen ∧
        final = (({ state with screen := screen } : Printing).setFile side
          { state.file side with tokens := stream }).record
            (.token side mode (texts side).tokens[(tracks side).modes.length]?))
      (handleNextToken options locale side print mode state) := by
  refine handleNextToken_rounds represents le
    (gathers_wrote (handleTokenChar_wrote width unadorned print mode) [] state.screen)
    (fun paraDelim _ _ => by rw [unadorned.paraDelim] at paraDelim; contradiction) ?_
  rw [shownText_nil]
  exact Wrote.refl _

/-- Of two synchronized runs the first one is written. -/
theorem synchronizes_wrote (prints : options.printCommon = true)
    (sideA sideB : Side) (screen : Screen) :
    Synchronizes options OfText sideA sideB
      (fun readA _ after => Wrote width screen (pieceText readA) after) := by
  refine ⟨fun readA readB char before wrote => ?_, fun readA readB char before wrote => ?_⟩
  · rw [onlyIf, if_pos prints]
    refine (printCommonChar_wrote width unadorned char before).mono fun after wrote' => ?_
    rw [pieceText_snoc]
    refine (wrote.trans wrote').congr rfl ?_
    split
    · exact countLine_output sideA after
    · rfl
  · refine wrote.congr rfl ?_
    split
    · exact countLine_output sideB before
    · rfl

/-- A common word is written behind the whitespace of one of the files. -/
theorem handleCommonWord_wrote (prints : options.printCommon = true)
    (represents : Represents options locale texts hashMax tracks calls state)
    (fresh : ∀ side, (tracks side).Fresh)
    (le : ∀ side, (tracks side).modes.length ≤ (texts side).ids.length) {sideA : Side}
    (isSide : (if !state.lastWasDelete then Side.new else Side.old) = sideA) :
    Meets OfText (fun final => Wrote width state.screen
          (pieceText ((texts sideA).run (tracks sideA)) ++
            pieceText ((texts .new).token (tracks .new))) final.screen ∧
        TookCommon texts tracks state final)
      (handleCommonWord options locale options.printCommon state) := by
  rw [prints]
  refine (handleCommonWord_rounds represents fresh le isSide
    (synchronizes_wrote width unadorned prints sideA sideA.other state.screen) (Wrote.refl _)
    (fun screen wrote => wrote.trans (Wrote.refl screen))
    (gathers_wrote (handleTokenChar_wrote width unadorned true .common)
      (pieceText ((texts sideA).run (tracks sideA))) state.screen)
    (fun screen wrote => Wrote.trans wrote (Wrote.refl screen))
    (gathers_wrote (handleTokenChar_wrote width unadorned false .oldCommon) _ _)).mono
    fun final ⟨wrote, took⟩ => ⟨?_, took⟩
  simpa only [shownText, if_true, Bool.false_eq_true, if_false, List.append_nil] using wrote

end Pieces

/-! ### The new file -/

/-- The text of a piece that was taken. -/
def Taking.text : Taking → List UInt8
  | .run piece => pieceText (piece.getD [])
  | .token _ piece => pieceText (piece.getD [])

/-- The text that was taken from the files of one input. -/
def takenText (side : Side) (events : List Event) : List UInt8 :=
  (takings side events).flatMap Taking.text

/-- The options under which only the new file is seen. -/
structure OnlyNew (options : Options) : Prop extends Unadorned options where
  wdiffOutput : options.wdiffOutput = true
  printDeleted : options.printDeleted = false
  printCommon : options.printCommon = true
  printAdded : options.printAdded = true
  addStart : options.addStart = []
  addStop : options.addStop = []

/-- What was taken from the new file is what was written. -/
structure Echoes (width : Nat) (state : Printing) : Prop where
  lastWasDelete : state.lastWasDelete = false
  unused : ∀ side, (state.file side).whitespaceBufferUsed = false
  output : written width state.screen.output = takenText .new state.events

section Echoes

variable {width : Nat} {calls : List (Side × Mode)}

theorem takenText_append (side : Side) (events more : List Event) :
    takenText side (events ++ more) = takenText side events ++ takenText side more := by
  rw [takenText, takings_append, List.flatMap_append]
  rfl

/-- What was taken for a common word. -/
theorem TookCommon.takenText {final : Printing} (took : TookCommon texts tracks state final)
    (side : Side) :
    Dwdiff.takenText side final.events = Dwdiff.takenText side state.events ++
      (pieceText ((texts side).run (tracks side)) ++
        pieceText ((texts side).token (tracks side))) := by
  rw [Dwdiff.takenText, Dwdiff.takenText, took.takings, List.flatMap_append]
  simp [Taking.text, Text.run, Text.token]

/-- A piece of the new file is written, one of the old file is not. -/
theorem Echoes.took {screen : Screen} {file : InputFile} {event : Event} {taking : Taking}
    (echoes : Echoes width state) (isOn : event.on side = some taking)
    (isAside : event.on side.other = none)
    (unused : file.whitespaceBufferUsed = (state.file side).whitespaceBufferUsed)
    (wrote : Wrote width state.screen (if side = .new then taking.text else []) screen) :
    Echoes width
      ((({ state with screen := screen } : Printing).setFile side file).record event) := by
  obtain ⟨lastWasDelete, allUnused, output⟩ := echoes
  have isText : takenText .new [event] = if side = .new then taking.text else [] := by
    simp only [takenText, takings, List.filterMap_cons, List.filterMap_nil]
    cases side with
    | old =>
      rw [show event.on .new = none from isAside]
      rfl
    | new =>
      rw [isOn]
      exact List.append_nil _
  have isOutput : written width screen.output = takenText .new (state.events ++ [event]) := by
    rw [takenText_append, isText, wrote, output]
  have isUnused := unused.trans (allUnused side)
  refine ⟨?_, fun other => ?_, ?_⟩
  · cases side <;> exact lastWasDelete
  · have others := allUnused other
    cases side <;> cases other <;> assumption
  · cases side <;> exact isOutput

/-- A change of the screen that writes nothing. -/
theorem Echoes.onScreen (echoes : Echoes width state) {change : Screen → Screen}
    (silent : written width (change state.screen).output = written width state.screen.output) :
    Echoes width (state.onScreen change) :=
  ⟨echoes.lastWasDelete, echoes.unused, silent.trans echoes.output⟩

theorem echoes_common (onlyNew : OnlyNew options)
    (represents : Represents options locale texts hashMax tracks calls state)
    (fresh : ∀ side, (tracks side).Fresh)
    (le : ∀ side, (tracks side).modes.length ≤ (texts side).ids.length)
    (echoes : Echoes width state) :
    Meets OfText (Echoes width)
      (handleCommonWord options locale options.printCommon state) := by
  have isSide : (if !state.lastWasDelete then Side.new else Side.old) = .new := by
    rw [echoes.lastWasDelete]
    rfl
  refine (handleCommonWord_wrote width onlyNew.toUnadorned onlyNew.printCommon represents fresh le
    isSide).mono ?_
  rintro final ⟨wrote, took⟩
  refine ⟨took.lastWasDelete, fun side => (took.buffers side).1.trans (echoes.unused side), ?_⟩
  rw [wrote, echoes.output, took.takenText .new]

theorem OnlyNew.shows (onlyNew : OnlyNew options) (side : Side) :
    Dwdiff.shows options side = decide (side = .new) := by
  cases side with
  | old => exact onlyNew.printDeleted
  | new => exact onlyNew.printAdded

/-- The calls for single pieces write the text of the new file. -/
theorem upholds_echoes (onlyNew : OnlyNew options) :
    Upholds options locale texts hashMax (Echoes options.lineNumbers)
      (Echoes options.lineNumbers) where
  enter := id
  common := fun represents fresh le _ echoes => echoes_common onlyNew represents fresh le echoes
  prepare := fun _ _ _ off => by
    rw [onlyNew.wdiffOutput] at off
    contradiction
  whitespace := by
    intro tracks calls state side first represents loaded below echoes
    have fresh : (tracks side).Fresh := by
      have buffered := (represents.files side).buffered
      rw [echoes.unused side] at buffered
      exact ⟨loaded.trans buffered.symm, buffered.symm⟩
    refine (handleNextWhitespace_wrote options.lineNumbers onlyNew.toUnadorned represents fresh
      (Nat.le_of_lt below) _ _).mono ?_
    rintro final ⟨screen, stream, wrote, rfl⟩
    refine echoes.took (Event.on_run side _) (Event.on_run_other side _) rfl ?_
    rw [onlyNew.shows, shownText] at wrote
    simp only [decide_eq_true_eq] at wrote
    exact wrote
  token := by
    intro tracks calls state side represents _ _ below echoes
    refine (handleNextToken_wrote options.lineNumbers onlyNew.toUnadorned represents
      (Nat.le_of_lt below) _ _).mono ?_
    rintro final ⟨screen, stream, wrote, rfl⟩
    refine echoes.took (Event.on_token side _ _) (Event.on_token_other side _ _) rfl ?_
    rw [onlyNew.shows, shownText] at wrote
    simp only [decide_eq_true_eq] at wrote
    exact wrote
  advance := by
    intro state side
    refine and_self_iff.mpr ?_
    rintro ⟨lastWasDelete, unused, output⟩
    refine ⟨?_, fun other => ?_, ?_⟩
    · cases side <;> exact lastWasDelete
    · cases side <;> cases other <;> first | exact unused .old | exact unused .new
    · cases side <;> exact output
  start := by
    intro state side isShown echoes
    refine echoes.onScreen ?_
    rw [onlyNew.shows] at isShown
    obtain rfl := of_decide_eq_true isShown
    rw [startWords_silent onlyNew.toUnadorned (by exact onlyNew.addStart),
      doPostLinefeed_output onlyNew.toUnadorned.unmarked]
  stop := by
    intro state side isShown echoes
    refine echoes.onScreen ?_
    rw [onlyNew.shows] at isShown
    obtain rfl := of_decide_eq_true isShown
    rw [stopWords_silent onlyNew.toUnadorned (by exact onlyNew.addStop),
      doPostLinefeed_output onlyNew.toUnadorned.unmarked]
  finish := by
    intro tracks calls state command change represents fresh printed _ echoes
    refine ⟨?_, echoes.unused, ?_⟩
    · show (if (command == .del && options.printDeleted && !options.wdiffOutput) = true then true
        else state.lastWasDelete) = false
      rw [onlyNew.printDeleted, Bool.and_false]
      exact echoes.lastWasDelete
    · show written _ (if options.needMarkers then _ else state.screen).output = _
      rw [onlyNew.needMarkers]
      exact echoes.output
  stepped := fun _ _ _ echoes => ⟨echoes.lastWasDelete, echoes.unused, echoes.output⟩
  ended := fun echoes => ⟨echoes.lastWasDelete, echoes.unused, echoes.output⟩
  marked := fun marks => by
    rw [onlyNew.needMarkers] at marks
    contradiction
  noticed := fun echoes => ⟨echoes.lastWasDelete, echoes.unused, echoes.output⟩

end Echoes

/-! ### Whole files -/

section Files

variable {known : List (List UInt8)} {input : List UInt8} {words : List Word} {last : List UInt8}
  {reading : Reading}

/-- A piece of bytes, as it is printed. -/
theorem pieceText_getElem? (pieces : List (List UInt8)) (i : Nat) :
    pieceText ((pieces.map (List.map ReadChar.single))[i]?.getD []) = pieces[i]?.getD [] := by
  rw [List.getElem?_map]
  cases pieces[i]? with
  | none => rfl
  | some piece => exact pieceText_single piece

/-- So many words of a file are its text so far; one more is the whitespace behind them. -/
theorem Filed.told_text (filed : Filed options locale known input words last reading)
    (modes : List Mode) :
    (told filed.toText modes).flatMap Taking.text =
      textOf (words.take modes.length) ++ if modes.length ≤ words.length then [] else last := by
  induction modes using List.reverseRecOn with
  | nil => simp [told]
  | append_singleton modes mode inductionHypothesis =>
    have isRun : pieceText (filed.toText.runs[modes.length]?.getD []) =
        (words.map Word.run ++ [last])[modes.length]?.getD [] := pieceText_getElem? _ _
    have isToken : pieceText (filed.toText.tokens[modes.length]?.getD []) =
        (words.map Word.token)[modes.length]?.getD [] := pieceText_getElem? _ _
    rw [told_append, List.flatMap_append, inductionHypothesis, List.flatMap_cons,
      List.flatMap_singleton, Taking.text, Taking.text, isRun, isToken, List.length_append,
      List.length_singleton]
    rcases Nat.lt_trichotomy modes.length words.length with inside | atEnd | beyond
    · rw [if_pos (Nat.le_of_lt inside), if_pos (Nat.succ_le_of_lt inside),
        List.take_succ_eq_append_getElem inside, textOf_append, textOf_singleton,
        List.getElem?_append_left (by simpa using inside), List.getElem?_map,
        List.getElem?_map, List.getElem?_eq_getElem inside]
      simp
    · rw [atEnd, List.take_of_length_le (Nat.le_refl _), List.take_of_length_le (by omega)]
      simp
    · rw [List.take_of_length_le (by omega), List.take_of_length_le (by omega),
        if_neg (by omega), if_neg (by omega), List.getElem?_eq_none (by simp; omega),
        List.getElem?_eq_none (by simp; omega)]
      simp

/-- One word more than there are is the whole file. -/
theorem Filed.told_whole (filed : Filed options locale known input words last reading)
    (noParagraphs : options.paraDelim = false) {modes : List Mode}
    (length : modes.length = filed.toText.ids.length + 1) :
    (told filed.toText modes).flatMap Taking.text = input := by
  have count : modes.length = words.length + 1 :=
    length.trans (congrArg (· + 1) filed.ids_length)
  rw [filed.told_text, count, List.take_of_length_le (by omega), if_neg (by omega),
    filed.text noParagraphs]

end Files

/-- When only the new file is seen, its text is what is written. The words and the bytes of a run,
escaped, are counted in an `int`. -/
theorem newText_conserved {options : Options} {locale : Locale}
    (singleByte : options.utf8Mode = false) (onlyNew : OnlyNew options) {old new : List UInt8}
    {charData : CharData} {executed : Executed} (size : 2 * (old.length + new.length) < 2 ^ 31)
    (returns : prepareAndExecuteDiff options locale old new charData initialPrinting =
      .ok executed) (contextLines : Nat) :
    ((initialBuffers contextLines).performAll false options.lineNumbers
      executed.state.screen.output).output = new := by
  obtain ⟨oldWords, newWords, oldLast, newLast, oldReading, newReading, prepared, -, -, diffs⟩ :=
    exists_prepared singleByte (by omega) returns
  have starts : Echoes options.lineNumbers
      (initialPrinting.filled oldReading newReading).rewound := by
    refine ⟨rfl, fun side => ?_, rfl⟩
    cases side <;> rfl
  have meets := (doDiff_meets (fun _ => True) (upholds_echoes onlyNew) (prepared.ready singleByte)
    starts (fun _ _ => trivial) (Or.inl trivial)).of_ok diffs
  rw [Returned, if_pos onlyNew.printCommon] at meets
  obtain ⟨modes, isTold, length⟩ := meets.takings .new
  obtain ⟨-, -, -, -, -, -, echoes⟩ := meets
  rw [performAll_output, echoes.output, takenText, isTold]
  exact prepared.newFiled.told_whole onlyNew.paraDelim length

/-- Only the new file is seen, and the default whitespace is ignored. -/
def onlyNewOptions : Options :=
  { defaultOptions with
    addStart := [], addStop := [], wdiffOutput := true, printDeleted := false }

theorem newText_conserved_words :
    ∃ executed, prepareAndExecuteDiff onlyNewOptions cLocale [97, 32, 98] [99, 10, 98, 32]
        ⟨0, [], [], []⟩ initialPrinting = .ok executed ∧
      ((initialBuffers 0).performAll false onlyNewOptions.lineNumbers
        executed.state.screen.output).output = [99, 10, 98, 32] := by
  obtain ⟨executed, returns⟩ := @exists_of_toBool _ _ (prepareAndExecuteDiff onlyNewOptions cLocale
    [97, 32, 98] [99, 10, 98, 32] ⟨0, [], [], []⟩ initialPrinting) (by decide +kernel)
  have onlyNew : OnlyNew onlyNewOptions :=
    ⟨⟨rfl, rfl, rfl, rfl, rfl, rfl, rfl⟩, rfl, rfl, rfl, rfl, rfl, rfl⟩
  exact ⟨executed, returns, newText_conserved rfl onlyNew (by decide) returns 0⟩

end Dwdiff
