/-
This file gives the rules for the loops that print a piece of whitespace or a
token. An invariant is indexed by the characters that were read so far, and holds
at the end of the loop for the whole piece. Each rule also says which state the
function returns, so that what the loops do to the screen is separated from what
they do to the files.
-/

import Dwdiff.Words

namespace Dwdiff

open Outcome
open Failure (OfText)

section Loops

variable {options : Options} {locale : Locale} {allowed : Failure → Prop}

/-- A loop over a piece that may be left behind any character. -/
theorem forPiece_indexed {State : Type} {invariant : List ReadChar → State → Prop}
    {mayStop : Prop} {body : ReadChar → State → Except Failure (Bool × State)}
    (keeps : ∀ consumed char state, invariant consumed state →
      Meets allowed (fun result => invariant (consumed ++ [char]) result.2 ∧
        (result.1 = true → mayStop)) (body char state))
    {stream final : Stream} {chars : List ReadChar} {pieceEnd : PieceEnd}
    (reads : Reads options locale stream chars pieceEnd final) {fuel : Nat}
    (enough : chars.length < fuel) {consumed : List ReadChar} {state : State}
    (holds : invariant consumed state) :
    Meets allowed (fun result =>
        (result.1 = pieceEnd ∧ result.2.1 = final ∧ invariant (consumed ++ chars) result.2.2) ∨
        (mayStop ∧ result.1 = .stopped ∧ ∃ first rest, chars = first ++ rest ∧
          Reads options locale result.2.1 rest pieceEnd final ∧
          invariant (consumed ++ first) result.2.2))
      (forPiece options locale body fuel stream state) := by
  induction reads generalizing fuel consumed state with
  | done ends =>
    obtain ⟨fuel, rfl⟩ := exists_round enough
    rw [forPiece, ends]
    exact Or.inl ⟨rfl, rfl, by rwa [List.append_nil]⟩
  | @more stream next final char chars pieceEnd reads rest inductionHypothesis =>
    obtain ⟨fuel, rfl⟩ := exists_round enough
    rw [forPiece, reads, ok_bind]
    refine (keeps consumed char state holds).bind ?_
    rintro ⟨stop, state'⟩ ⟨holds', stops⟩
    cases stop with
    | true => exact Or.inr ⟨stops rfl, rfl, [char], chars, rfl, rest, holds'⟩
    | false =>
      refine (inductionHypothesis (Nat.lt_of_succ_lt_succ enough) holds').mono ?_
      rintro result (⟨ends, isFinal, kept⟩ | ⟨may, stopped, first, left, isChars, reads', kept⟩)
      · exact Or.inl ⟨ends, isFinal, by rwa [List.append_cons]⟩
      · exact Or.inr ⟨may, stopped, char :: first, left, by rw [isChars]; rfl, reads',
          by rwa [List.append_cons]⟩

/-- Each round adds the character to what the invariant is about. -/
def Gathers {State : Type} (allowed : Failure → Prop) (invariant : List ReadChar → State → Prop)
    (body : ReadChar → State → Except Failure State) : Prop :=
  ∀ consumed char state, invariant consumed state →
    Meets allowed (invariant (consumed ++ [char])) (body char state)

/-- A loop that reads the whole piece. -/
theorem forPiece_rounds {State : Type} {invariant : List ReadChar → State → Prop}
    {body : ReadChar → State → Except Failure State}
    (keeps : Gathers allowed invariant body)
    {stream final : Stream} {chars : List ReadChar} {pieceEnd : PieceEnd}
    (reads : Reads options locale stream chars pieceEnd final) {consumed : List ReadChar}
    {state : State} (holds : invariant consumed state) :
    Meets allowed (fun result => result.1 = pieceEnd ∧ result.2.1 = final ∧
        invariant (consumed ++ chars) result.2.2)
      (forPiece options locale (always body) stream.rounds stream state) := by
  refine (@forPiece_indexed options locale allowed State invariant False (always body)
    (fun consumed char state holds => (keeps consumed char state holds).bind fun _ kept =>
      ⟨kept, nofun⟩) _ _ _ _ reads _ reads.length_lt _ _ holds).mono ?_
  rintro result (ended | ⟨impossible, -⟩)
  · exact ended
  · exact impossible.elim

/-! ### Synchronized whitespace -/

section Synchronized

variable {sideA sideB : Side} {invariant : List ReadChar → List ReadChar → Screen → Prop}
  {endA endB : PieceEnd} {finalA finalB : Stream} {charsA charsB : List ReadChar}

/-- What the two loops of `handleSynchronizedNextWhitespace` have to keep: the characters of the A
file are printed and their lines counted, those of the B file are only counted. -/
structure Synchronizes (options : Options) (allowed : Failure → Prop) (sideA sideB : Side)
    (invariant : List ReadChar → List ReadChar → Screen → Prop) : Prop where
  print : ∀ readA readB char screen, invariant readA readB screen →
    Meets allowed (fun printed => invariant (readA ++ [char]) readB
        (if char.equals 10 then countLine sideA printed else printed))
      (onlyIf options.printCommon (printCommonChar options char) screen)
  skip : ∀ readA readB char screen, invariant readA readB screen →
    invariant readA (readB ++ [char]) (if char.equals 10 then countLine sideB screen else screen)

/-- How far the B file was followed. -/
def Behind (options : Options) (locale : Locale)
    (invariant : List ReadChar → List ReadChar → Screen → Prop) (endB : PieceEnd) (finalB : Stream)
    (charsB readA : List ReadChar) (loop : Screen × Stream × Bool) : Prop :=
  ∃ readB rest, charsB = readB ++ rest ∧ invariant readA readB loop.1 ∧
    if loop.2.2 then Reads options locale loop.2.1 rest endB finalB
    else loop.2.1 = finalB ∧ rest = []

theorem synchronize_behind (synchronizes : Synchronizes options allowed sideA sideB invariant)
    (whole : endB ≠ .stopped) (readA : List ReadChar) (char : ReadChar)
    (loop : Screen × Stream × Bool)
    (behind : Behind options locale invariant endB finalB charsB readA loop) :
    Meets allowed (Behind options locale invariant endB finalB charsB (readA ++ [char]))
      (synchronize options locale sideA sideB char loop) := by
  obtain ⟨screen, stream, valid⟩ := loop
  obtain ⟨readB, rest, rfl, holds, isValid⟩ := behind
  refine (synchronizes.print readA readB char screen holds).bind fun printed holds' => ?_
  unfold onlyIf
  cases newline : char.equals 10 with
  | false =>
    rw [newline] at holds'
    exact ⟨readB, rest, rfl, holds', isValid⟩
  | true =>
    rw [newline] at holds'
    cases valid with
    | false => exact ⟨readB, rest, rfl, holds', isValid⟩
    | true =>
      have lines : ∀ consumed other screen,
          invariant (readA ++ [char]) (readB ++ consumed) screen →
          Meets allowed (fun result => invariant (readA ++ [char]) (readB ++ (consumed ++ [other]))
            result.2 ∧ (result.1 = true → True)) (toNextLine sideB other screen) := by
        intro consumed other screen holds
        have skipped := synchronizes.skip _ _ other screen holds
        rw [List.append_assoc] at skipped
        unfold toNextLine
        cases ends : other.equals 10 with
        | true | false =>
          rw [ends] at skipped
          exact ⟨skipped, fun _ => trivial⟩
      refine (@forPiece_indexed options locale allowed Screen
        (fun consumed => invariant (readA ++ [char]) (readB ++ consumed)) True _ lines _ _ _ _
        isValid _ (Reads.length_lt isValid) [] _ (by rwa [List.append_nil])).bind ?_
      rintro ⟨pieceEnd, stream', screen'⟩ (⟨ends, isFinal, kept⟩ |
        ⟨-, stopped, first, left, isRest, reads, kept⟩)
      · dsimp only at ends isFinal kept
        subst ends isFinal
        have unstopped : (pieceEnd == PieceEnd.stopped) = false := by
          rw [beq_eq_false_iff_ne]
          exact whole
        refine ⟨readB ++ rest, [], (List.append_nil _).symm, kept, ?_⟩
        dsimp only
        rw [unstopped]
        exact ⟨rfl, rfl⟩
      · dsimp only at stopped reads kept
        subst stopped
        exact ⟨readB ++ first, left, by rw [isRest, List.append_assoc], kept, reads⟩

theorem skipRest_behind (synchronizes : Synchronizes options allowed sideA sideB invariant)
    {readA : List ReadChar} {loop : Screen × Stream × Bool}
    (behind : Behind options locale invariant endB finalB charsB readA loop) :
    Meets allowed (fun result => invariant readA charsB result.1 ∧ result.2 = finalB)
      (skipRest options locale sideB loop) := by
  obtain ⟨screen, stream, valid⟩ := loop
  obtain ⟨readB, rest, rfl, holds, isValid⟩ := behind
  cases valid with
  | false =>
    obtain ⟨isFinal, isRest⟩ := isValid
    subst isRest
    exact ⟨by rwa [List.append_nil], isFinal⟩
  | true =>
    refine (@forPiece_rounds options locale allowed Screen
      (fun consumed => invariant readA (readB ++ consumed)) (countLines sideB)
      (fun consumed char screen holds => ?_) _ _ _ _ isValid [] _ (by rwa [List.append_nil])).bind
      fun result kept => ⟨kept.2.2, kept.2.1⟩
    have skipped := synchronizes.skip _ _ char screen holds
    rw [List.append_assoc] at skipped
    exact skipped

/-- Both runs are read once, and the invariant holds for the two of them. -/
theorem handleSynchronizedNextWhitespace_rounds
    (synchronizes : Synchronizes options allowed sideA sideA.other invariant) {state : Printing}
    {printNew : Bool} (isSide : (if printNew then Side.new else Side.old) = sideA)
    (readsA : Reads options locale (state.file sideA).whitespaceStream charsA endA finalA)
    (readsB : Reads options locale (state.file sideA.other).whitespaceStream charsB endB finalB)
    (whole : endB ≠ .stopped) (holds : invariant [] [] state.screen) :
    Meets allowed (fun final => ∃ screen, invariant charsA charsB screen ∧
        final = (Printing.afterWhitespace options locale { state with screen := screen } sideA
          finalA).afterWhitespace options locale sideA.other finalB)
      (handleSynchronizedNextWhitespace options locale printNew state) := by
  unfold handleSynchronizedNextWhitespace
  rw [isSide]
  dsimp only
  have starts : Behind options locale invariant endB finalB charsB []
      (state.screen, (state.file sideA.other).whitespaceStream, true) :=
    ⟨[], charsB, rfl, holds, readsB⟩
  refine (forPiece_rounds (synchronize_behind synchronizes whole) readsA starts).bind ?_
  rintro ⟨pieceEnd, stream, loop⟩ ⟨-, isFinal, behind⟩
  refine (skipRest_behind synchronizes behind).bind ?_
  rintro ⟨screen, streamB⟩ ⟨kept, isFinalB⟩
  dsimp only at isFinal isFinalB
  subst isFinal isFinalB
  exact ⟨screen, kept, rfl⟩

end Synchronized

end Loops

/-! ### Whitespace and tokens -/

section Pieces

variable {options : Options} {locale : Locale} {texts : Side → Text} {hashMax : Nat}
  {tracks : Side → Track} {calls : List (Side × Mode)} {state : Printing} {side : Side}

/-- The whitespace of the next word. -/
def Text.run (text : Text) (track : Track) : List ReadChar :=
  text.runs[track.modes.length]?.getD []

/-- The token of the next word. -/
def Text.token (text : Text) (track : Track) : List ReadChar :=
  text.tokens[track.modes.length]?.getD []

/-- The whitespace of both files was read from the files. -/
def Printing.tookRuns (state : Printing) (texts : Side → Text) (tracks : Side → Track)
    (sideA : Side) (screen : Screen) (streamA streamB : Stream) : Printing :=
  let afterA := (({ state with screen := screen } : Printing).setFile sideA
    { state.file sideA with whitespace := streamA }).record
      (.run sideA (texts sideA).runs[(tracks sideA).modes.length]?)
  (afterA.setFile sideA.other { afterA.file sideA.other with whitespace := streamB }).record
    (.run sideA.other (texts sideA.other).runs[(tracks sideA.other).modes.length]?)

/-- What the handling of a common word leaves besides the screen. -/
structure TookCommon (texts : Side → Text) (tracks : Side → Track) (state final : Printing) :
    Prop where
  lastWasDelete : final.lastWasDelete = false
  steps : final.steps = state.steps
  buffers : ∀ side,
    (final.file side).whitespaceBufferUsed = (state.file side).whitespaceBufferUsed ∧
      (final.file side).whitespaceBuffer = (state.file side).whitespaceBuffer
  takings : ∀ side, takings side final.events = takings side state.events ++
    [.run (texts side).runs[(tracks side).modes.length]?,
      .token (commonMode side) (texts side).tokens[(tracks side).modes.length]?]

/-- A loop over a string in memory, in single-byte mode. -/
theorem forString_rounds (singleByte : options.utf8Mode = false)
    {body : ReadChar → Screen → Except Failure Screen}
    {invariant : List ReadChar → Screen → Prop}
    (keeps : Gathers OfText invariant body)
    {bytes : List UInt8} :
    ∀ {fuel : Nat} {stream : Stream} {consumed : List ReadChar} {screen : Screen},
      stream.remaining = bytes → bytes.length < fuel → invariant consumed screen →
      Meets OfText (invariant (consumed ++ bytes.map .single))
        (forString options locale body fuel stream screen) := by
  induction bytes with
  | nil =>
    intro fuel stream consumed screen ends enough holds
    obtain ⟨fuel, rfl⟩ := exists_round enough
    rw [forString, readNextChar_end singleByte ends, List.map_nil, List.append_nil]
    exact holds
  | cons byte bytes inductionHypothesis =>
    intro fuel stream consumed screen starts enough holds
    obtain ⟨fuel, rfl⟩ := exists_round enough
    rw [forString, readNextChar_cons singleByte starts, ok_bind, List.map_cons, List.append_cons]
    refine (keeps consumed (.single byte) screen holds).bind fun screen' kept => ?_
    exact inductionHypothesis (advance_remaining stream _ _) (Nat.lt_of_succ_lt_succ enough) kept

/-- `handleNextWhitespace`, when the run is in the buffer. -/
theorem handleNextWhitespace_buffer (singleByte : options.utf8Mode = false)
    (used : (state.file side).whitespaceBufferUsed = true) {print : Bool} {mode : Mode}
    {invariant : List ReadChar → Screen → Prop}
    (keeps : Gathers OfText invariant (handleWhitespaceChar options print mode))
    (holds : invariant [] state.screen) :
    Meets OfText (fun final => ∃ screen,
        invariant ((state.file side).whitespaceBuffer.map .single) screen ∧
        final = ({ state with screen := screen } : Printing).setFile side
          { state.file side with whitespaceBuffer := [], whitespaceBufferUsed := false })
      (handleNextWhitespace options locale side print mode state) := by
  unfold handleNextWhitespace
  dsimp only
  rw [if_pos used]
  refine (@forString_rounds options locale singleByte _ _ keeps
    (state.file side).whitespaceBuffer _ (newStringStream (state.file side).whitespaceBuffer) _ _
    rfl ?_ holds).bind fun screen kept => ⟨screen, kept, rfl⟩
  exact Nat.lt_add_of_pos_right (Nat.succ_pos 2)

theorem afterWhitespace_unused {state : Printing} {stream : Stream}
    (unused : (state.file side).whitespaceBufferUsed = false) :
    state.afterWhitespace options locale side stream =
      (state.setFile side { state.file side with whitespace := stream }).record
        (.run side (peekPiece options locale (state.file side).whitespace)) := by
  rw [Printing.afterWhitespace, if_neg (by rw [unused]; exact Bool.false_ne_true)]

/-! ### Whitespace that is loaded -/

/-- The bytes are none of those that are escaped. -/
def Unescaped (bytes : List UInt8) : Prop := ∀ byte ∈ bytes, byte ≠ 0 ∧ byte ≠ 1

theorem single_equals_newline (byte : UInt8) :
    (ReadChar.single byte).equals 10 = decide (byte = 10) := by
  rw [ReadChar.equals, Bool.eq_iff_iff, beq_iff_eq, decide_eq_true_iff]
  exact @UInt8.toNat_inj byte 10

/-- A string without escaped bytes is read back as it is. -/
theorem reads_string (singleByte : options.utf8Mode = false) {bytes : List UInt8}
    (plain : Unescaped bytes) {stream : Stream} (holds : stream.remaining = bytes) :
    ∃ final, Reads options locale stream (bytes.map .single) .endOfFile final := by
  induction bytes generalizing stream with
  | nil => exact ⟨_, .done (nextOfPiece_end singleByte holds)⟩
  | cons byte bytes inductionHypothesis =>
    obtain ⟨notZero, notOne⟩ := plain byte List.mem_cons_self
    obtain ⟨final, reads⟩ := inductionHypothesis (fun other isIn => plain other (.tail _ isIn))
      (advance_remaining stream [byte] bytes)
    have isEscaped : escapeByte byte = [byte] := if_neg (not_or.mpr ⟨notZero, notOne⟩)
    have next := @nextOfPiece_escapeByte options locale stream bytes singleByte byte
    rw [isEscaped] at next
    exact ⟨final, .more (next holds) reads⟩

/-- The whitespace of the next word is in the buffer. -/
def Printing.loaded (state : Printing) (texts : Side → Text) (tracks : Side → Track) (side : Side)
    (bytes : List UInt8) (stream : Stream) : Printing :=
  (state.setFile side { state.file side with
    whitespace := stream, whitespaceBuffer := bytes, whitespaceBufferUsed := true }).record
      (.run side (texts side).runs[(tracks side).modes.length]?)

theorem loadChar_foldlM (bytes buffer : List UInt8) (newlineFound : Bool) :
    (bytes.map ReadChar.single).foldlM (fun loaded char => loadChar char loaded)
      (buffer, newlineFound) = Except.ok (buffer ++ bytes, bytes.contains 10 || newlineFound) := by
  induction bytes generalizing buffer newlineFound with
  | nil => rw [List.append_nil]; rfl
  | cons byte bytes inductionHypothesis =>
    have found : (bytes.contains 10 || ((ReadChar.single byte).equals 10 || newlineFound)) =
        ((byte :: bytes).contains 10 || newlineFound) := by
      rw [single_equals_newline, List.contains_cons, Bool.beq_eq_decide_eq, ← Bool.or_assoc,
        Bool.or_comm (bytes.contains 10), decide_eq_decide.mpr (eq_comm : byte = 10 ↔ 10 = byte)]
    rw [List.map_cons, List.foldlM_cons, List.append_cons, ← found]
    exact inductionHypothesis _ _

/-- `loadNextWhitespace`, in single-byte mode. -/
theorem loadNextWhitespace_eq {bytes : List UInt8} {pieceEnd : PieceEnd} {final : Stream}
    (reads : Reads options locale (state.file side).whitespace (bytes.map .single) pieceEnd final) :
    loadNextWhitespace options locale side state =
      .ok (bytes.contains 10, (state.setFile side { state.file side with
        whitespace := final, whitespaceBuffer := bytes, whitespaceBufferUsed := true }).record
          (.run side (peekPiece options locale (state.file side).whitespace))) := by
  unfold loadNextWhitespace
  dsimp only
  rw [forPiece_always loadChar reads, loadChar_foldlM, List.nil_append, Bool.or_false]
  rfl

/-- The whitespace of the next word of both files is in the buffers. -/
def Printing.loadedBoth (state : Printing) (texts : Side → Text) (tracks : Side → Track)
    (bytes : Side → List UInt8) (streamOld streamNew : Stream) : Printing :=
  (state.loaded texts tracks .old (bytes .old) streamOld).loaded texts tracks .new (bytes .new)
    streamNew

theorem loadedBoth_whitespaceStream (bytes : Side → List UInt8) (streamOld streamNew : Stream)
    (side : Side) :
    ((state.loadedBoth texts tracks bytes streamOld streamNew).file side).whitespaceStream =
      newStringStream (bytes side) := by
  cases side <;> rfl

/-- The three cases of `prepareWhitespace`: only the old run is loaded, both are, or both were
printed together and are replaced. -/
def Printing.Prepared (state : Printing) (texts : Side → Text) (tracks : Side → Track)
    (bytes : Side → List UInt8) (printed : Screen → Prop) (result : Bool × Printing) : Prop :=
  ∃ streamOld,
    let old := state.loaded texts tracks .old (bytes .old) streamOld
    (¬ (10 ∈ bytes .old) ∧ result = (false, old)) ∨
    ∃ streamNew, let both := state.loadedBoth texts tracks bytes streamOld streamNew
      (10 ∈ bytes .old ∧ ¬ (10 ∈ bytes .new) ∧ result = (true, both)) ∨
      (10 ∈ bytes .old ∧ 10 ∈ bytes .new ∧ ∃ screen, printed screen ∧
        result = (false, { both with
          screen := screen
          newFile := { both.newFile with whitespaceBuffer := [0x20] }
          oldFile := { both.oldFile with whitespaceBuffer := [] } }))

/-! ### The next word -/

variable (represents : Represents options locale texts hashMax tracks calls state)

include represents

section OneSide

variable (le : (tracks side).modes.length ≤ (texts side).ids.length)

include le

/-- The next token, or nothing at the end of the file. -/
theorem Represents.reads_token :
    ∃ pieceEnd final, Reads options locale (state.file side).tokens
        ((texts side).token (tracks side)) pieceEnd final ∧
      peekPiece options locale (state.file side).tokens =
        (texts side).tokens[(tracks side).modes.length]? := by
  obtain ⟨chars, pieceEnd, final, reads, -, isChars, peeks, -⟩ :=
    (represents.files side).tokens.next (by rw [(texts side).tokens_length]; exact le)
  refine ⟨pieceEnd, final, ?_, peeks⟩
  rw [Text.token, isChars]
  exact reads

/-- `handleNextToken`. -/
theorem handleNextToken_rounds {print : Bool} {mode : Mode}
    {invariant : List ReadChar → Screen → Prop}
    (keeps : Gathers OfText invariant (handleTokenChar options print mode))
    (marks : options.paraDelim = true → print = true → mode ≠ .common → ∀ screen,
      invariant ((texts side).token (tracks side)) screen →
      Meets OfText (invariant ((texts side).token (tracks side)))
        (printParaDelim options locale mode screen)) (holds : invariant [] state.screen) :
    Meets OfText (fun final => ∃ screen stream,
        invariant ((texts side).token (tracks side)) screen ∧
        final = (({ state with screen := screen } : Printing).setFile side
          { state.file side with tokens := stream }).record
            (.token side mode (texts side).tokens[(tracks side).modes.length]?))
      (handleNextToken options locale side print mode state) := by
  obtain ⟨pieceEnd, final, reads, peeks⟩ := represents.reads_token le
  unfold handleNextToken
  dsimp only
  rw [peeks]
  refine (@forPiece_rounds options locale _ (Bool × Screen)
    (fun consumed loop => invariant consumed loop.2) (handleTokenRound options print mode)
    (fun consumed char loop kept => (keeps consumed char loop.2 kept).bind fun _ kept => kept)
    _ _ _ _ reads [] (true, state.screen) holds).bind ?_
  rintro ⟨last, stream, empty, screen⟩ ⟨-, -, kept⟩
  refine (onlyIf_meets (fun condition => ?_) fun _ => kept).bind
    fun screen' kept' => ⟨screen', stream, kept', rfl⟩
  simp only [Bool.and_eq_true, bne_iff_ne] at condition
  exact marks condition.1.1.1.2 condition.1.1.2 condition.2 screen kept

variable (fresh : (tracks side).Fresh)

include fresh

/-- The next run, when it is still to be read from the file. -/
theorem Represents.reads_run :
    ∃ final, Reads options locale (state.file side).whitespace
        ((texts side).run (tracks side)) .terminator final ∧
      peekPiece options locale (state.file side).whitespace =
        (texts side).runs[(tracks side).modes.length]? ∧
      (state.file side).whitespaceStream = (state.file side).whitespace := by
  have isAt := represents.files side
  have rest := isAt.whitespace
  rw [fresh.1, Bool.toNat_false, add_zero] at rest
  have below : (tracks side).modes.length < (texts side).runs.length := by
    rw [(texts side).runs_length]
    omega
  obtain ⟨chars, pieceEnd, final, reads, ends, isChars, peeks, -⟩ := rest.next (Nat.le_of_lt below)
  rw [ends below] at reads
  refine ⟨final, ?_, peeks, ?_⟩
  · rw [Text.run, isChars]
    exact reads
  · rw [InputFile.whitespaceStream, isAt.buffered, fresh.2]
    rfl

/-- `handleNextWhitespace`, when the run is read from the file. -/
theorem handleNextWhitespace_rounds {print : Bool} {mode : Mode}
    {invariant : List ReadChar → Screen → Prop}
    (keeps : Gathers OfText invariant (handleWhitespaceChar options print mode))
    (holds : invariant [] state.screen) :
    Meets OfText (fun final => ∃ screen stream,
        invariant ((texts side).run (tracks side)) screen ∧
        final = (({ state with screen := screen } : Printing).setFile side
          { state.file side with whitespace := stream }).record
            (.run side (texts side).runs[(tracks side).modes.length]?))
      (handleNextWhitespace options locale side print mode state) := by
  obtain ⟨final, reads, peeks, -⟩ := represents.reads_run le fresh
  unfold handleNextWhitespace
  dsimp only
  rw [(represents.files side).buffered, fresh.2, if_neg Bool.false_ne_true, peeks]
  refine (forPiece_rounds keeps reads holds).bind ?_
  rintro ⟨pieceEnd, stream, screen⟩ ⟨-, -, kept⟩
  exact ⟨screen, stream, kept, rfl⟩

/-- The same for the run of the next word. -/
theorem loadNextWhitespace_rounds {bytes : List UInt8}
    (isRun : (texts side).run (tracks side) = bytes.map .single) :
    Meets OfText (fun result => result.1 = bytes.contains 10 ∧
        ∃ stream, result.2 = state.loaded texts tracks side bytes stream)
      (loadNextWhitespace options locale side state) := by
  obtain ⟨final, reads, peeks, -⟩ := represents.reads_run le fresh
  rw [isRun] at reads
  rw [loadNextWhitespace_eq reads, peeks]
  exact ⟨rfl, final, rfl⟩

end OneSide

variable (fresh : ∀ side, (tracks side).Fresh)
  (le : ∀ side, (tracks side).modes.length ≤ (texts side).ids.length)

include fresh le

/-- `handleSynchronizedNextWhitespace`, when both runs are read from the files. -/
theorem synchronized_rounds {sideA : Side} {printNew : Bool}
    (isSide : (if printNew then Side.new else Side.old) = sideA)
    {invariant : List ReadChar → List ReadChar → Screen → Prop}
    (synchronizes : Synchronizes options OfText sideA sideA.other invariant)
    (holds : invariant [] [] state.screen) :
    Meets OfText (fun final => ∃ screen streamA streamB,
        invariant ((texts sideA).run (tracks sideA)) ((texts sideA.other).run (tracks sideA.other))
          screen ∧
        final = state.tookRuns texts tracks sideA screen streamA streamB)
      (handleSynchronizedNextWhitespace options locale printNew state) := by
  obtain ⟨finalA, readsA, peeksA, streamA⟩ := represents.reads_run (le sideA) (fresh sideA)
  obtain ⟨finalB, readsB, peeksB, streamB⟩ :=
    represents.reads_run (le sideA.other) (fresh sideA.other)
  rw [← streamA] at readsA
  rw [← streamB] at readsB
  refine (handleSynchronizedNextWhitespace_rounds synchronizes isSide readsA readsB
    nofun holds).mono ?_
  rintro final ⟨screen, kept, rfl⟩
  refine ⟨screen, finalA, finalB, kept, ?_⟩
  have unused : ∀ side, (state.file side).whitespaceBufferUsed = false := fun side =>
    (represents.files side).buffered.trans (fresh side).2
  rw [Printing.tookRuns, ← peeksA, ← peeksB]
  cases sideA with
  | old =>
    rw [@afterWhitespace_unused _ _ .old { state with screen := screen } finalA (unused .old)]
    exact afterWhitespace_unused (unused .new)
  | new =>
    rw [@afterWhitespace_unused _ _ .new { state with screen := screen } finalA (unused .new)]
    exact afterWhitespace_unused (unused .old)

theorem prepareWhitespace_cases {bytes : Side → List UInt8}
    (isRun : ∀ side, (texts side).run (tracks side) = (bytes side).map .single)
    {printed : Screen → Prop}
    (prints : ∀ streamOld streamNew, Meets OfText (fun final => ∃ screen, printed screen ∧
        final = { state.loadedBoth texts tracks bytes streamOld streamNew with screen := screen })
      (handleSynchronizedNextWhitespace options locale (!state.lastWasDelete)
        (state.loadedBoth texts tracks bytes streamOld streamNew))) :
    Meets OfText (state.Prepared texts tracks bytes printed)
      (prepareWhitespace options locale state) := by
  unfold prepareWhitespace
  refine ((loadNextWhitespace_represents represents rfl (fresh .old).1 (le .old)).and
    (loadNextWhitespace_rounds represents (le .old) (fresh .old) (isRun .old))).bind ?_
  rintro ⟨oldNewline, state'⟩ ⟨read, isNewline, streamOld, isLoaded⟩
  dsimp only at isNewline isLoaded read
  subst isLoaded
  cases oldNewline with
  | false => exact ⟨streamOld, Or.inl ⟨by simpa using isNewline.symm, rfl⟩⟩
  | true =>
    have oldHas : 10 ∈ bytes .old := by simpa using isNewline.symm
    have updated : Function.update tracks .old { tracks .old with taken := true, buffered := true }
        .new = tracks .new := Function.update_of_ne (by nofun) _ _
    refine (@loadNextWhitespace_rounds _ _ _ _ _ _ _ .new read (updated ▸ le .new)
      (updated ▸ fresh .new) (bytes .new) (by rw [updated]; exact isRun .new)).bind ?_
    rintro ⟨newNewline, state''⟩ ⟨isNewline', streamNew, isLoaded'⟩
    have isLoaded : state'' = state.loadedBoth texts tracks bytes streamOld streamNew := by
      refine isLoaded'.trans ?_
      rw [Printing.loaded, updated]
      rfl
    subst isLoaded
    cases newNewline with
    | false => exact ⟨streamOld, Or.inr ⟨streamNew, Or.inl ⟨oldHas, by simpa using isNewline'.symm,
        rfl⟩⟩⟩
    | true =>
      have newHas : 10 ∈ bytes .new := by simpa using isNewline'.symm
      refine (prints streamOld streamNew).bind ?_
      rintro final ⟨screen, isPrinted, rfl⟩
      exact ⟨streamOld, Or.inr ⟨streamNew, Or.inr ⟨oldHas, newHas, screen, isPrinted, rfl⟩⟩⟩

/-- The same when the runs have no escaped bytes: both are read once. -/
theorem prepareWhitespace_rounds (singleByte : options.utf8Mode = false)
    {bytes : Side → List UInt8}
    (isRun : ∀ side, (texts side).run (tracks side) = (bytes side).map .single)
    (plain : ∀ side, Unescaped (bytes side)) {sideA : Side}
    (isSide : (if !state.lastWasDelete then Side.new else Side.old) = sideA)
    {invariant : List ReadChar → List ReadChar → Screen → Prop}
    (synchronizes : Synchronizes options OfText sideA sideA.other invariant)
    (holds : invariant [] [] state.screen) :
    Meets OfText (state.Prepared texts tracks bytes (invariant
        ((texts sideA).run (tracks sideA)) ((texts sideA.other).run (tracks sideA.other))))
      (prepareWhitespace options locale state) := by
  refine prepareWhitespace_cases represents fresh le isRun fun streamOld streamNew => ?_
  obtain ⟨finalA, readsA⟩ := @reads_string options locale singleByte _ (plain sideA)
    (newStringStream (bytes sideA)) rfl
  obtain ⟨finalB, readsB⟩ := @reads_string options locale singleByte _ (plain sideA.other)
    (newStringStream (bytes sideA.other)) rfl
  rw [← isRun, ← @loadedBoth_whitespaceStream texts tracks state bytes streamOld streamNew]
    at readsA readsB
  refine (handleSynchronizedNextWhitespace_rounds synchronizes isSide readsA readsB nofun
    holds).mono ?_
  rintro final ⟨screen, kept, rfl⟩
  refine ⟨screen, kept, ?_⟩
  cases sideA <;> rfl

/-- The three loops of `handleCommonWord`: the whitespace of both files, the token of the new file
and the token of the old one. -/
theorem handleCommonWord_rounds {print : Bool} {sideA : Side}
    (isSide : (if !state.lastWasDelete then Side.new else Side.old) = sideA)
    {whitespace : List ReadChar → List ReadChar → Screen → Prop}
    (synchronizes : Synchronizes options OfText sideA sideA.other whitespace)
    (starts : whitespace [] [] state.screen) {newToken oldToken : List ReadChar → Screen → Prop}
    (toNew : ∀ screen, whitespace ((texts sideA).run (tracks sideA))
      ((texts sideA.other).run (tracks sideA.other)) screen → newToken [] screen)
    (keepsNew : Gathers OfText newToken (handleTokenChar options print .common))
    (toOld : ∀ screen, newToken ((texts .new).token (tracks .new)) screen → oldToken [] screen)
    (keepsOld : Gathers OfText oldToken (handleTokenChar options false .oldCommon)) :
    Meets OfText (fun final => oldToken ((texts .old).token (tracks .old)) final.screen ∧
        TookCommon texts tracks state final)
      (handleCommonWord options locale print state) := by
  unfold handleCommonWord
  refine ((handleSynchronizedNextWhitespace_represents represents
    (fun side => (fresh side).1.trans (fresh side).2.symm) le _).and
    (synchronized_rounds represents fresh le isSide synchronizes starts)).bind ?_
  rintro between ⟨read, screen, streamA, streamB, kept, rfl⟩
  have read' : Represents options locale texts hashMax
      (fun side => { tracks side with taken := true }) calls
      { state.tookRuns texts tracks sideA screen streamA streamB with lastWasDelete := false } :=
    read.congr rfl rfl rfl rfl
  have isScreen : (state.tookRuns texts tracks sideA screen streamA streamB).screen = screen := by
    cases sideA <;> rfl
  refine ((handleNextToken_represents read' rfl rfl (le .new) print .common).and
    (handleNextToken_rounds read' (le .new) keepsNew (fun _ _ absurd' => absurd rfl absurd')
      (toNew _ (isScreen.symm ▸ kept)))).bind ?_
  rintro afterNew ⟨readNew, screenNew, streamNew, keptNew, rfl⟩
  refine (handleNextToken_rounds readNew ?_ keepsOld (fun _ absurd' => nomatch absurd')
    (toOld _ keptNew)).mono ?_
  · exact le .old
  rintro final ⟨screenOld, streamOld, keptOld, rfl⟩
  refine ⟨keptOld, ?_, ?_, fun side => ?_, fun side => ?_⟩
  · rfl
  · cases sideA <;> rfl
  · cases sideA <;> cases side <;> exact ⟨rfl, rfl⟩
  · cases sideA <;> cases side <;>
      simp [Printing.tookRuns, Printing.setFile, Printing.record, takings, Event.on, Side.other,
        commonMode, Function.update]

end Pieces

end Dwdiff
