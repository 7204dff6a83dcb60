/-
This file is about the line numbers. Line feeds are counted in four functions: in
whitespace and in tokens, for one file or for both, and in whitespace that was
loaded ahead. It proves that behind every common word and every change the line
number of each file is that of the words printed so far.
-/

import Dwdiff.Prepared
import Dwdiff.Rounds

namespace Dwdiff

open Diff Outcome
open Failure (OfText)

variable {options : Options} {locale : Locale} {event : Event}

/-- The number of line feeds. -/
def lineFeeds (chars : List ReadChar) : Nat := chars.countP fun char => char.equals 10

theorem lineFeeds_append (chars more : List ReadChar) :
    lineFeeds (chars ++ more) = lineFeeds chars + lineFeeds more := List.countP_append

theorem lineFeeds_singleton (char : ReadChar) :
    lineFeeds [char] = if char.equals 10 then 1 else 0 := by
  rw [lineFeeds, List.countP_singleton]

theorem lineFeeds_single (bytes : List UInt8) :
    lineFeeds (bytes.map .single) = bytes.count 10 := by
  rw [lineFeeds, List.countP_map, List.count]
  refine List.countP_congr fun byte _ => ?_
  rw [Function.comp_apply, single_equals_newline, decide_eq_true_iff, beq_iff_eq]

/-- The line number of one of the files. -/
def Screen.line (screen : Screen) : Side → Nat
  | .old => screen.oldLineNumber
  | .new => screen.newLineNumber

/-! ### Characters -/

@[simp] theorem emitIf_line (screen : Screen) (condition : Bool) (emission : Emission) :
    (screen.emitIf condition emission).line = screen.line := by
  cases condition <;> rfl

@[simp] theorem emit_line (screen : Screen) (emission : Emission) :
    (screen.emit emission).line = screen.line := rfl

@[simp] theorem doPostLinefeed_line (mode : Mode) (screen : Screen) :
    (doPostLinefeed options mode screen).line = screen.line := by
  unfold doPostLinefeed
  dsimp only
  split
  · split
    · split <;> simp only [emit_line, emitIf_line] <;> rfl
    · split
      · simp only [emit_line, emitIf_line]
        rfl
      · rfl
  · rfl

@[simp] theorem beforeLineBreak_line (mode : Mode) (char : ReadChar) (screen : Screen) :
    (beforeLineBreak options mode char screen).line = screen.line := by
  unfold beforeLineBreak
  split <;> simp

@[simp] theorem startWords_line (mode : Mode) (screen : Screen) :
    (startWords options mode screen).line = screen.line := by
  unfold startWords
  split <;> simp

@[simp] theorem stopWords_line (mode : Mode) (screen : Screen) :
    (stopWords options mode screen).line = screen.line := by
  unfold stopWords
  split <;> simp

theorem addCharData_line (char : ReadChar) (common : Bool) (screen : Screen) :
    Meets OfText (fun after => after.line = screen.line)
      (addCharData char common screen) := by
  cases char with
  | single byte => exact rfl
  | cluster units => exact (filteredConvertAll_meets units 0).bind fun _ _ => rfl

/-- The file whose lines whitespace of a mode counts for. -/
def Mode.side : Mode → Side
  | .add => .new
  | .del => .old
  | .common => .new
  | .oldCommon => .old

/-- Whether tokens of a mode count for a file. -/
def Mode.countsFor : Mode → Side → Bool
  | .add, side => side == .new
  | .del, side => side == .old
  | .common, _ => true
  | .oldCommon, _ => false

theorem handleWhitespaceChar_line (print : Bool) (mode : Mode) (char : ReadChar)
    (screen : Screen) :
    Meets OfText (fun after => ∀ side, after.line side = screen.line side +
        if mode.side = side then lineFeeds [char] else 0)
      (handleWhitespaceChar options print mode char screen) := by
  have printed : Meets OfText (fun after => after.line = screen.line)
      (printWhitespaceChar options mode char screen) := by
    refine (addCharData_line char _ _).bind fun after same => ?_
    refine Eq.trans same ?_
    split <;> simp
  refine (onlyIf_meets (fun _ => printed) fun _ => rfl).bind fun after same side => ?_
  rw [← same, lineFeeds_singleton]
  unfold countWhitespaceLine
  cases char.equals 10 <;> cases mode <;> cases side <;> rfl

theorem addTokenChar_line (mode : Mode) (char : ReadChar) (screen : Screen) :
    Meets OfText (fun after => after.line = screen.line)
      (addTokenChar options mode char screen) := by
  have struck : Meets OfText (fun after => after.line = screen.line)
      (overstrike mode char screen) := by
    cases mode with
    | add => exact (addCharData_line char _ _).bind fun _ same => same
    | del | common | oldCommon => exact rfl
  refine (onlyIf_meets (fun _ => struck) fun _ => rfl).bind fun after same => ?_
  exact (addCharData_line char _ _).mono fun last same' => same'.trans same

theorem handleTokenChar_line (print : Bool) (mode : Mode) (char : ReadChar) (screen : Screen) :
    Meets OfText (fun after => ∀ side, after.line side = screen.line side +
        if mode.countsFor side then lineFeeds [char] else 0)
      (handleTokenChar options print mode char screen) := by
  have printed : Meets OfText (fun after => after.line = screen.line)
      (printTokenChar options mode char screen) := by
    refine (addTokenChar_line mode char _).bind fun after same => ?_
    refine Eq.trans same ?_
    rw [beforeLineBreak_line, doPostLinefeed_line]
  refine (onlyIf_meets (fun _ => printed) fun _ => rfl).bind fun after same side => ?_
  rw [← same, lineFeeds_singleton]
  unfold countTokenLine
  cases char.equals 10 <;> cases mode <;> cases side <;> rfl

theorem printParaDelim_line (locale : Locale) (mode : Mode) (screen : Screen) :
    Meets OfText (fun after => after.line = screen.line)
      (printParaDelim options locale mode screen) := by
  unfold printParaDelim
  dsimp only
  refine forString_keeps options locale (fun char before same => ?_) (weight_lt_rounds _) rfl
  refine (addCharData_line char _ _).mono fun after same' => ?_
  rw [same', doPostLinefeed_line, same]

/-- Two synchronized runs are counted for their own files. -/
theorem synchronizes_line (sideA : Side) (screen : Screen) :
    Synchronizes options OfText sideA sideA.other
      (fun readA readB after => after.line sideA = screen.line sideA + lineFeeds readA ∧
        after.line sideA.other = screen.line sideA.other + lineFeeds readB) := by
  have printed : ∀ char (before : Screen), Meets OfText
      (fun after => after.line = before.line)
      (onlyIf options.printCommon (printCommonChar options char) before) := by
    intro char before
    refine onlyIf_meets (fun _ => ?_) fun _ => rfl
    refine (addCharData_line char _ _).bind fun after same => ?_
    exact Eq.trans same (doPostLinefeed_line _ _)
  refine ⟨fun readA readB char before ⟨isA, isB⟩ => ?_,
    fun readA readB char before ⟨isA, isB⟩ => ?_⟩
  · refine (printed char before).mono fun after same => ?_
    rw [← same] at isA isB
    rw [lineFeeds_append, lineFeeds_singleton, ← Nat.add_assoc, ← isA, ← isB]
    cases char.equals 10 <;> cases sideA <;> exact ⟨rfl, rfl⟩
  · rw [lineFeeds_append, lineFeeds_singleton, ← Nat.add_assoc, ← isA, ← isB]
    cases char.equals 10 <;> cases sideA <;> exact ⟨rfl, rfl⟩

/-! ### A run -/

/-- The line feeds of a piece that was taken. -/
def Taking.lines : Taking → Nat
  | .run piece => lineFeeds (piece.getD [])
  | .token _ piece => lineFeeds (piece.getD [])

/-- The line feeds that were taken from the files of one input. -/
def takenLines (side : Side) (events : List Event) : Nat :=
  ((takings side events).map Taking.lines).sum

/-- The line feeds that are still in the buffer. -/
def InputFile.bufferedLines (file : InputFile) : Nat :=
  if file.whitespaceBufferUsed then file.whitespaceBuffer.count 10 else 0

/-- The line feeds in the first words. -/
def Text.lines (text : Text) (count : Nat) : Nat :=
  lineFeeds (text.runs.take count).flatten + lineFeeds (text.tokens.take count).flatten

/-- The line numbers are those of the words printed so far. -/
def Step.Exact (texts : Side → Text) (step : Step) : Prop :=
  step.oldLineNumber = 1 + (texts .old).lines step.oldPrinted.toNat ∧
    step.newLineNumber = 1 + (texts .new).lines step.newPrinted.toNat

/-- The line feeds that were taken are counted, apart from those in the buffer. -/
structure Counts (texts : Side → Text) (state : Printing) : Prop where
  lines : ∀ side, state.screen.line side + (state.file side).bufferedLines =
    1 + takenLines side state.events
  steps : ∀ step ∈ state.steps, step.kind ≠ .ending → step.Exact texts

/-- What is needed of the texts: whitespace can be read back from the buffer, and equal words have
equally many lines. -/
structure Countable (texts : Side → Text) : Prop where
  run : ∀ side, ∀ run ∈ (texts side).runs, ∃ bytes, run = bytes.map .single ∧ Unescaped bytes
  same : ∀ {i j : Nat}, (texts .old).ids[i]? = (texts .new).ids[j]? →
    lineFeeds ((texts .old).tokens[i]?.getD []) = lineFeeds ((texts .new).tokens[j]?.getD [])

section Counts

variable {texts : Side → Text} {hashMax : Nat} {tracks : Side → Track} {calls : List (Side × Mode)}
  {state : Printing}

theorem takenLines_append (side : Side) (events more : List Event) :
    takenLines side (events ++ more) = takenLines side events + takenLines side more := by
  rw [takenLines, takings_append, List.map_append, List.sum_append]
  rfl

theorem takenLines_on {side : Side} {taking : Taking} (isOn : event.on side = some taking) :
    takenLines side [event] = taking.lines := by
  simp [takenLines, takings, isOn]

theorem takenLines_aside {side : Side} (isAside : event.on side = none) :
    takenLines side [event] = 0 := by
  simp [takenLines, takings, isAside]

/-- The line feeds of so many words. -/
theorem told_lines (text : Text) (modes : List Mode) :
    ((told text modes).map Taking.lines).sum = text.lines modes.length := by
  have flattened : ∀ (pieces : List (List ReadChar)) (count : Nat),
      lineFeeds (pieces.take (count + 1)).flatten =
        lineFeeds (pieces.take count).flatten + lineFeeds (pieces[count]?.getD []) := by
    intro pieces count
    rw [List.take_add_one, List.flatten_append, lineFeeds_append]
    cases pieces[count]? <;> simp
  induction modes using List.reverseRecOn with
  | nil => simp [told, Text.lines, lineFeeds]
  | append_singleton modes mode inductionHypothesis =>
    rw [told_append, List.map_append, List.sum_append, inductionHypothesis, List.length_append,
      List.length_singleton, Text.lines, Text.lines, flattened, flattened]
    simp only [List.map_cons, List.map_nil, List.sum_cons, List.sum_nil, Taking.lines]
    omega

variable (counts : Counts texts state)

include counts

/-- A piece was taken, and counted for its file. -/
theorem Counts.took {side : Side} {screen : Screen} {file : InputFile} {taking : Taking}
    (isOn : event.on side = some taking) (isAside : event.on side.other = none)
    (counted : screen.line side + file.bufferedLines =
      state.screen.line side + (state.file side).bufferedLines + taking.lines)
    (other : screen.line side.other = state.screen.line side.other) :
    Counts texts
      ((({ state with screen := screen } : Printing).setFile side file).record event) := by
  have lines : ∀ third, screen.line third + ((({ state with screen := screen } : Printing).setFile
      side file).file third).bufferedLines = 1 + takenLines third (state.events ++ [event]) := by
    intro third
    rw [takenLines_append]
    by_cases same : third = side
    · subst same
      rw [takenLines_on isOn, file_setFile, Function.update_self, counted, counts.lines]
      omega
    · obtain rfl : third = side.other := by cases side <;> cases third <;> trivial
      rw [takenLines_aside isAside, file_setFile, Function.update_of_ne same, other]
      exact counts.lines side.other
  cases side with
  | old | new => exact ⟨lines, counts.steps⟩

/-- A change of the screen that counts nothing. -/
theorem Counts.onScreen {change : Screen → Screen}
    (same : (change state.screen).line = state.screen.line) :
    Counts texts (state.onScreen change) := by
  refine ⟨fun side => ?_, counts.steps⟩
  show (change state.screen).line side + _ = _
  rw [same]
  exact counts.lines side

/-- Whitespace that was loaded is counted when it is printed. -/
theorem Counts.loaded (side : Side) (unused : (state.file side).whitespaceBufferUsed = false)
    {bytes : List UInt8} (isRun : (texts side).run (tracks side) = bytes.map .single)
    (stream : Stream) : Counts texts (state.loaded texts tracks side bytes stream) := by
  refine counts.took (Event.on_run side _) (Event.on_run_other side _) ?_ rfl
  rw [Taking.lines, ← Text.run, isRun, lineFeeds_single]
  simp [InputFile.bufferedLines, unused]

variable (represents : Represents options locale texts hashMax tracks calls state)

include represents

/-- Between two steps the line numbers are those of the words printed so far. -/
theorem Counts.exact {side : Side} (fresh : (tracks side).Fresh)
    (printed : (tracks side).printed = (tracks side).modes.length) :
    state.screen.line side = 1 + (texts side).lines (state.file side).lastPrinted.toNat := by
  have isAt := represents.files side
  have lines := counts.lines side
  rw [takenLines, isAt.isTold, Track.pending, fresh.1, if_neg Bool.false_ne_true, List.append_nil,
    told_lines, InputFile.bufferedLines, isAt.buffered, fresh.2, if_neg Bool.false_ne_true] at lines
  rw [isAt.printed, printed, Int.toNat_natCast, ← lines]
  rfl

theorem counts_step (fresh : ∀ side, (tracks side).Fresh)
    (printed : ∀ side, (tracks side).printed = (tracks side).modes.length) (kind : StepKind) :
    Counts texts (state.step kind) := by
  refine ⟨counts.lines, fun step isIn notEnding => ?_⟩
  rcases List.mem_append.mp isIn with earlier | isLast
  · exact counts.steps step earlier notEnding
  · obtain rfl := List.mem_singleton.mp isLast
    exact ⟨counts.exact represents (fresh .old) (printed .old),
      counts.exact represents (fresh .new) (printed .new)⟩

theorem counts_common (countable : Countable texts) (fresh : ∀ side, (tracks side).Fresh)
    (le : ∀ side, (tracks side).modes.length ≤ (texts side).ids.length)
    (same : (texts .old).ids[(tracks .old).modes.length]? =
      (texts .new).ids[(tracks .new).modes.length]?) :
    Meets OfText (Counts texts)
      (handleCommonWord options locale options.printCommon state) := by
  -- The token of the new file is counted for both files, that of the old file for none.
  let counted : List ReadChar → Screen → Prop := fun consumed screen => ∀ side,
    screen.line side = state.screen.line side + lineFeeds ((texts side).run (tracks side)) +
      lineFeeds consumed
  obtain ⟨sideA, isSide⟩ := @exists_eq' _ (if !state.lastWasDelete then Side.new else Side.old)
  refine (@handleCommonWord_rounds options locale texts hashMax tracks calls state represents fresh
    le _ sideA isSide _ (synchronizes_line sideA state.screen) ⟨rfl, rfl⟩ counted
    (fun _ => counted ((texts .new).token (tracks .new))) ?_ ?_ ?_ ?_).mono ?_
  · rintro screen ⟨isA, isB⟩ side
    cases sideA <;> cases side <;> first | exact isA | exact isB
  · intro consumed char screen isCounted
    refine (handleTokenChar_line _ .common char screen).mono fun after line side => ?_
    rw [line, isCounted, lineFeeds_append, Nat.add_assoc]
    rfl
  · exact fun screen isCounted => isCounted
  · intro consumed char screen isCounted
    refine (handleTokenChar_line false .oldCommon char screen).mono fun after line side => ?_
    rw [line, isCounted]
    rfl
  · rintro final ⟨isCounted, took⟩
    refine ⟨fun side => ?_, by rw [took.steps]; exact counts.steps⟩
    have lines := counts.lines side
    have buffers := took.buffers side
    have tokens : lineFeeds ((texts .new).token (tracks .new)) =
        lineFeeds ((texts side).token (tracks side)) := by
      cases side with
      | old => exact (countable.same same).symm
      | new => rfl
    rw [takenLines] at lines
    rw [isCounted, takenLines, took.takings, List.map_append, List.sum_append,
      InputFile.bufferedLines, buffers.1, buffers.2, tokens]
    simp only [List.map_cons, List.map_nil, List.sum_cons, List.sum_nil, Taking.lines]
    rw [InputFile.bufferedLines] at lines
    simp only [Text.run, Text.token]
    omega

theorem counts_whitespace (singleByte : options.utf8Mode = false) {side : Side}
    (loaded : (tracks side).taken = (tracks side).buffered)
    (le : (tracks side).modes.length ≤ (texts side).ids.length) {print : Bool} {mode : Mode}
    (isSide : mode.side = side) :
    Meets OfText (Counts texts)
      (handleNextWhitespace options locale side print mode state) := by
  let counted : List ReadChar → Screen → Prop := fun consumed screen =>
    screen.line side = state.screen.line side + lineFeeds consumed ∧
      screen.line side.other = state.screen.line side.other
  have keeps : ∀ consumed char screen, counted consumed screen →
      Meets OfText (counted (consumed ++ [char]))
        (handleWhitespaceChar options print mode char screen) := by
    rintro consumed char screen ⟨line, other⟩
    refine (handleWhitespaceChar_line print mode char screen).mono fun after lines => ⟨?_, ?_⟩
    · rw [lines, isSide, if_pos rfl, line, lineFeeds_append, Nat.add_assoc]
    · rw [lines, isSide, if_neg (by cases side <;> nofun), other]
      rfl
  have buffered := (represents.files side).buffered
  cases isUsed : (tracks side).buffered with
  | false =>
    rw [isUsed] at loaded buffered
    refine (handleNextWhitespace_rounds represents le ⟨loaded, isUsed⟩ keeps ⟨rfl, rfl⟩).mono ?_
    rintro final ⟨screen, stream, ⟨line, other⟩, rfl⟩
    refine counts.took (Event.on_run side _) (Event.on_run_other side _) ?_ other
    rw [line]
    simp only [InputFile.bufferedLines, Taking.lines, Text.run]
    omega
  | true =>
    rw [isUsed] at buffered
    refine (handleNextWhitespace_buffer singleByte buffered keeps ⟨rfl, rfl⟩).mono ?_
    rintro final ⟨screen, ⟨line, other⟩, rfl⟩
    rw [lineFeeds_single] at line
    have lines : ∀ third, screen.line third + ((({ state with screen := screen } :
        Printing).setFile side { state.file side with
          whitespaceBuffer := [], whitespaceBufferUsed := false }).file third).bufferedLines =
        1 + takenLines third state.events := by
      intro third
      have before := counts.lines third
      rw [file_setFile]
      by_cases same : third = side
      · subst same
        rw [InputFile.bufferedLines, buffered, if_pos rfl] at before
        rw [Function.update_self, line]
        exact before
      · obtain rfl : third = side.other := by cases side <;> cases third <;> trivial
        rw [Function.update_of_ne same, other]
        exact before
    cases side with
    | old | new => exact ⟨lines, counts.steps⟩

theorem counts_token (side : Side) (le : (tracks side).modes.length ≤ (texts side).ids.length)
    (print : Bool) :
    Meets OfText (Counts texts)
      (handleNextToken options locale side print (changedMode side) state) := by
  refine (@handleNextToken_rounds options locale texts hashMax tracks calls state side represents le
    print (changedMode side) (fun consumed screen =>
      screen.line side = state.screen.line side + lineFeeds consumed ∧
      screen.line side.other = state.screen.line side.other) ?_ ?_ ⟨rfl, rfl⟩).mono ?_
  · rintro consumed char screen ⟨line, other⟩
    refine (handleTokenChar_line print (changedMode side) char screen).mono
      fun after lines => ⟨?_, ?_⟩
    · rw [lines, line, lineFeeds_append, Nat.add_assoc]
      cases side <;> rfl
    · rw [lines, other]
      cases side <;> rfl
  · rintro - - - screen counted
    refine (printParaDelim_line locale (changedMode side) screen).mono fun after same => ?_
    rw [same]
    exact counted
  · rintro final ⟨screen, stream, ⟨line, other⟩, rfl⟩
    refine counts.took (Event.on_token side _ _) (Event.on_token_other side _ _) ?_ other
    rw [line]
    simp only [InputFile.bufferedLines, Taking.lines, Text.token]
    omega

theorem counts_prepare (singleByte : options.utf8Mode = false) (countable : Countable texts)
    (fresh : ∀ side, (tracks side).Fresh)
    (below : ∀ side, (tracks side).modes.length < (texts side).ids.length) :
    Meets OfText (fun result => Counts texts result.2)
      (prepareWhitespace options locale state) := by
  have exists_bytes : ∀ side, ∃ bytes, (texts side).run (tracks side) = bytes.map .single ∧
      Unescaped bytes := by
    intro side
    have isIn : (tracks side).modes.length < (texts side).runs.length := by
      rw [(texts side).runs_length]
      have := below side
      omega
    rw [Text.run, List.getElem?_eq_getElem isIn]
    exact countable.run side _ (List.getElem_mem isIn)
  choose bytes isRun unescaped using exists_bytes
  have unused : ∀ side, (state.file side).whitespaceBufferUsed = false := fun side =>
    (represents.files side).buffered.trans (fresh side).2
  obtain ⟨sideA, isSide⟩ := @exists_eq' _ (if !state.lastWasDelete then Side.new else Side.old)
  refine (prepareWhitespace_rounds represents fresh (fun side => Nat.le_of_lt (below side))
    singleByte isRun unescaped isSide (synchronizes_line sideA state.screen) ⟨rfl, rfl⟩).mono ?_
  rintro result ⟨streamOld, ⟨-, rfl⟩ | ⟨streamNew, ⟨-, -, rfl⟩ | ⟨-, -, screen, ⟨isA, isB⟩, rfl⟩⟩⟩
  · exact counts.loaded .old (unused .old) (isRun .old) streamOld
  · exact (counts.loaded .old (unused .old) (isRun .old) streamOld).loaded .new (unused .new)
      (isRun .new) streamNew
  · have both := (counts.loaded .old (unused .old) (isRun .old) streamOld).loaded .new (unused .new)
      (isRun .new) streamNew
    -- What was in the buffers was counted, and what replaces it has no line feed.
    have line : ∀ side, screen.line side = state.screen.line side + (bytes side).count 10 := by
      intro side
      rw [← lineFeeds_single, ← isRun]
      cases sideA <;> cases side <;> first | exact isA | exact isB
    refine ⟨fun side => ?_, both.steps⟩
    have lines := both.lines side
    have before : (state.loaded texts tracks .old (bytes .old) streamOld |>.loaded texts tracks .new
        (bytes .new) streamNew |>.file side).bufferedLines = (bytes side).count 10 := by
      cases side <;> rfl
    rw [before] at lines
    refine Eq.trans ?_ lines
    show screen.line side + _ = state.screen.line side + _
    rw [line, Nat.add_assoc]
    cases side <;> rfl

omit counts represents in
/-- The calls for single pieces count the lines of their files. -/
theorem upholds_counts (singleByte : options.utf8Mode = false) (countable : Countable texts) :
    Upholds options locale texts hashMax (Counts texts) (Counts texts) where
  enter := id
  common := fun represents fresh le same counts =>
    counts_common counts represents countable fresh le same
  prepare := fun represents fresh below _ counts =>
    counts_prepare counts represents singleByte countable fresh below
  whitespace := fun side first represents loaded below counts =>
    counts_whitespace counts represents singleByte loaded (Nat.le_of_lt below)
      (by cases side <;> cases first <;> rfl)
  token := fun side represents _ _ below counts =>
    counts_token counts represents side (Nat.le_of_lt below) _
  advance := by
    intro state side
    refine and_self_iff.mpr ?_
    rintro ⟨lines, steps⟩
    refine ⟨fun other => ?_, ?_⟩
    · cases side <;> cases other <;> first | exact lines .old | exact lines .new
    · cases side <;> exact steps
  start := fun side _ counts => counts.onScreen (by simp)
  stop := fun side _ counts => counts.onScreen (by simp)
  finish := by
    intro tracks calls state command change represents fresh printed _ counts
    have marked : Counts texts (state.onScreen fun screen => if options.needMarkers then
        { screen.emit (.puts ("\n" ++ markerLine)) with lastWasLinefeed := true } else screen) :=
      counts.onScreen (by split <;> rfl)
    have stepped := counts_step marked (represents.onScreen _) fresh printed
      (.difference command change)
    exact ⟨stepped.lines, stepped.steps⟩
  stepped := fun represents fresh printed counts =>
    counts_step counts represents fresh printed .common
  ended := fun counts => ⟨counts.lines, fun step isIn notEnding => by
    rcases List.mem_append.mp isIn with earlier | isLast
    · exact counts.steps step earlier notEnding
    · obtain rfl := List.mem_singleton.mp isLast
      exact absurd rfl notEnding⟩
  marked := fun _ counts => counts.onScreen rfl
  noticed := fun counts => ⟨counts.lines, counts.steps⟩

end Counts

/-! ### Whole files -/

/-- The line feeds in the first words of an input, as its temporary files give them back. -/
def Reading.lines (options : Options) (locale : Locale) (reading : Reading) (count : Nat) : Nat :=
  match readPieces options locale (reading.whitespace.length + 1)
      (newFileStream reading.whitespace),
    readPieces options locale (reading.tokens.length + 1) (newFileStream reading.tokens) with
  | .ok runs, .ok tokens =>
    lineFeeds (runs.take count).flatten + lineFeeds (tokens.take count).flatten
  | _, _ => 0

/-- The whitespace is what `postProcessOptionsSC` makes it without the option `-W`. -/
def DefaultWhitespace (isspace : UInt8 → Bool) (options : Options) : Prop :=
  ∀ byte, testBit options.whitespace byte = (!testBit options.delimiters byte && isspace byte)

/-- What the C library says about the bytes that are treated apart: the two that are escaped are no
space, and the line feed is not a letter. -/
structure PlainControls (isspace : UInt8 → Bool) (locale : Locale) : Prop where
  zero : isspace 0 = false
  one : isspace 1 = false
  lineFeed : ∀ byte, locale.toLower byte = 10 ↔ byte = 10

section Files

variable {isspace : UInt8 → Bool}

theorem Filed.lines {known : List (List UInt8)} {input last : List UInt8} {words : List Word}
    {reading : Reading} (singleByte : options.utf8Mode = false)
    (filed : Filed options locale known input words last reading) (count : Nat) :
    reading.lines options locale count = filed.toText.lines count := by
  obtain ⟨tokens, whitespace⟩ := filed.bytes
  have enough := length_le_flatMap_escaped (words.map Word.token)
  have enough' := length_le_flatMap_escaped (words.map Word.run ++ [last])
  rw [Reading.lines, readPieces_escaped singleByte (by rw [whitespace]; omega) whitespace,
    readPieces_escaped singleByte (by rw [tokens]; omega) tokens]
  rfl

theorem unescaped_of_isRun (default : DefaultWhitespace isspace options)
    (controls : PlainControls isspace locale) {run : List UInt8} (isRun : IsRun options run) :
    Unescaped run := by
  intro byte isIn
  have isSpace : isspace byte = true := by
    have category := isRun byte isIn
    unfold byteCategory at category
    split at category
    · contradiction
    · split at category
      · next isWhitespace =>
        rw [default, Bool.and_eq_true] at isWhitespace
        exact isWhitespace.2
      · contradiction
  constructor
  · rintro rfl
    rw [controls.zero] at isSpace
    contradiction
  · rintro rfl
    rw [controls.one] at isSpace
    contradiction

theorem count_comparisonKey (controls : PlainControls isspace locale) (token : List UInt8) :
    (comparisonKey options locale token).count 10 = token.count 10 := by
  unfold comparisonKey List.count
  rw [List.countP_map]
  refine List.countP_congr fun byte _ => ?_
  rw [Function.comp_apply, beq_iff_eq, beq_iff_eq]
  split
  · exact controls.lineFeed byte
  · rfl

theorem Prepared.countable {old new : List UInt8} {oldWords newWords : List Word}
    {oldLast newLast : List UInt8} {oldReading newReading : Reading}
    (prepared : Prepared options locale old new oldWords newWords oldLast newLast oldReading
      newReading) (default : DefaultWhitespace isspace options)
    (controls : PlainControls isspace locale) : Countable prepared.texts := by
  have isUnescaped : ∀ (words : List Word) (last : List UInt8), AllRuns options words →
      IsRun options last → ∀ run ∈ (words.map Word.run ++ [last]).map (List.map ReadChar.single),
      ∃ bytes, run = bytes.map .single ∧ Unescaped bytes := by
    intro words last runs isRun run isIn
    obtain ⟨bytes, isBytes, rfl⟩ := List.mem_map.mp isIn
    refine ⟨bytes, rfl, unescaped_of_isRun default controls ?_⟩
    rcases List.mem_append.mp isBytes with isOne | isLast
    · obtain ⟨word, isWord, rfl⟩ := List.mem_map.mp isOne
      exact runs word isWord
    · rw [List.mem_singleton.mp isLast]
      exact isRun
  refine ⟨fun side => ?_, fun {i j} same => ?_⟩
  · cases side with
    | old => exact isUnescaped oldWords oldLast prepared.oldFiled.runs prepared.oldFiled.isRun
    | new => exact isUnescaped newWords newLast prepared.newFiled.runs prepared.newFiled.isRun
  · have tokenLines : ∀ (words : List Word) (i : Nat),
        lineFeeds ((((words.map Word.token).map (List.map ReadChar.single))[i]?).getD []) =
          ((words[i]?.map Word.token).getD []).count 10 := by
      intro words i
      rw [List.getElem?_map, List.getElem?_map]
      cases words[i]? with
      | none => rfl
      | some word => exact lineFeeds_single word.token
    have oldLength := prepared.oldFiled.ids_length
    have newLength := prepared.newFiled.ids_length
    refine (tokenLines oldWords i).trans (Eq.trans ?_ (tokenLines newWords j).symm)
    change oldReading.diffTokens[i]? = newReading.diffTokens[j]? at same
    cases isOld : oldWords[i]? with
    | none =>
      rw [List.getElem?_eq_none_iff, ← oldLength, ← List.getElem?_eq_none_iff, same,
        List.getElem?_eq_none_iff, newLength, ← List.getElem?_eq_none_iff] at isOld
      rw [isOld]
    | some oldWord =>
      cases isNew : newWords[j]? with
      | none =>
        rw [List.getElem?_eq_none_iff, ← newLength, ← List.getElem?_eq_none_iff, ← same,
          List.getElem?_eq_none_iff, oldLength, ← List.getElem?_eq_none_iff, isOld] at isNew
        contradiction
      | some newWord =>
        have key := congrArg (List.count 10) (prepared.same_key isOld isNew same)
        rw [count_comparisonKey controls, count_comparisonKey controls] at key
        exact key

/-- Behind every common word and every change the line numbers are exact. The lines, the words and
the bytes of a run, escaped, are counted in an `int`. -/
theorem lineNumbers_exact (singleByte : options.utf8Mode = false)
    (default : DefaultWhitespace isspace options) (controls : PlainControls isspace locale)
    {old new : List UInt8} {charData : CharData} {executed : Executed}
    (size : 2 * (old.length + new.length) < 2 ^ 31)
    (returns : prepareAndExecuteDiff options locale old new charData initialPrinting =
      .ok executed) :
    ∃ oldReading newReading,
      readFile options locale old charData Hashtable.empty = .ok (executed.oldTotal, oldReading) ∧
      readFile options locale new oldReading.charData oldReading.hashtable =
        .ok (executed.newTotal, newReading) ∧
      ∀ step ∈ executed.state.steps, step.kind ≠ .ending →
        step.oldLineNumber = 1 + oldReading.lines options locale step.oldPrinted.toNat ∧
        step.newLineNumber = 1 + newReading.lines options locale step.newPrinted.toNat := by
  obtain ⟨oldWords, newWords, oldLast, newLast, oldReading, newReading, prepared, readsOld,
    readsNew, diffs⟩ := exists_prepared singleByte (by omega) returns
  have starts : Counts prepared.texts (initialPrinting.filled oldReading newReading).rewound := by
    refine ⟨fun side => ?_, nofun⟩
    cases side <;> rfl
  have meets := (doDiff_meets (fun _ => True)
    (upholds_counts singleByte (prepared.countable default controls)) (prepared.ready singleByte)
    starts (fun _ _ => trivial) (Or.inl trivial)).of_ok diffs
  refine ⟨oldReading, newReading, readsOld, readsNew, fun step isIn notEnding => ?_⟩
  rw [prepared.oldFiled.lines singleByte, prepared.newFiled.lines singleByte]
  exact meets.upheld.steps step isIn notEnding

/-- The spaces of the C locale. -/
def cSpace (byte : UInt8) : Bool := byte == 32 || (9 ≤ byte && byte ≤ 13)

theorem lineNumbers_exact_lines :
    ∃ executed oldReading newReading,
      prepareAndExecuteDiff defaultOptions cLocale [97, 10, 98, 32, 99] [97, 10, 10, 120]
        ⟨0, [], [], []⟩ initialPrinting = .ok executed ∧
      readFile defaultOptions cLocale [97, 10, 98, 32, 99] ⟨0, [], [], []⟩ Hashtable.empty =
        .ok (executed.oldTotal, oldReading) ∧
      readFile defaultOptions cLocale [97, 10, 10, 120] oldReading.charData
        oldReading.hashtable = .ok (executed.newTotal, newReading) ∧
      ∀ step ∈ executed.state.steps, step.kind ≠ .ending →
        step.oldLineNumber =
          1 + oldReading.lines defaultOptions cLocale step.oldPrinted.toNat ∧
        step.newLineNumber =
          1 + newReading.lines defaultOptions cLocale step.newPrinted.toNat := by
  obtain ⟨executed, returns⟩ := @exists_of_toBool _ _ (prepareAndExecuteDiff defaultOptions cLocale
    [97, 10, 98, 32, 99] [97, 10, 10, 120] ⟨0, [], [], []⟩ initialPrinting) (by decide +kernel)
  have default : DefaultWhitespace cSpace defaultOptions := by
    rintro ⟨byte⟩
    revert byte
    decide +kernel
  have controls : PlainControls cSpace cLocale := by
    refine ⟨rfl, rfl, ?_⟩
    rintro ⟨byte⟩
    revert byte
    decide +kernel
  obtain ⟨oldReading, newReading, exact'⟩ := lineNumbers_exact rfl default controls
    (by decide) returns
  exact ⟨executed, oldReading, newReading, returns, exact'⟩

end Files

end Dwdiff
