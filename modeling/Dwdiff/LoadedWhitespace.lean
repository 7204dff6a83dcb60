/-
This file compares the two representations of a run of whitespace that
`handleSynchronizedNextWhitespace` reads, in single-byte mode. In the temporary
file the run is escaped and ends with a NUL; `loadNextWhitespace` stores it plain
in a buffer. The same loops read both, so a 0 in the buffer ends the run and a 1
makes the next byte a literal one.

What the function does is determined by the characters it reads of the A file
and by the number of line feeds it reads in the B file. The buffers are read as
the files are exactly when these are the same.
-/

import Dwdiff.Alike
import Dwdiff.LineNumbers

namespace Dwdiff

open Outcome

variable {options : Options} {locale : Locale} {stream : Stream} {lines : Nat} {valid : Bool}

/-! ### What is read of a buffer -/

/-- The bytes of a buffer, read as if they were escaped. -/
def readBack : List UInt8 → Option (List UInt8)
  | [] => some []
  | [byte] => if byte = 0 then some [] else if byte = 1 then none else some [byte]
  | byte :: next :: rest =>
    if byte = 0 then some []
    else if byte = 1 then (readBack rest).map (next :: ·)
    else (readBack (next :: rest)).map (byte :: ·)

theorem readBack_zero (rest : List UInt8) : readBack (0 :: rest) = some [] := by
  cases rest <;> rfl

theorem readBack_plain {byte : UInt8} (notZero : byte ≠ 0) (notOne : byte ≠ 1)
    (rest : List UInt8) : readBack (byte :: rest) = (readBack rest).map (byte :: ·) := by
  cases rest with
  | nil => exact (if_neg notZero).trans (if_neg notOne)
  | cons next rest => rw [readBack, if_neg notZero, if_neg notOne]

theorem readBack_length_le (bytes : List UInt8) {text : List UInt8}
    (reads : readBack bytes = some text) : text.length ≤ bytes.length := by
  fun_induction readBack bytes generalizing text with
  | case1 => exact (Option.some.inj reads) ▸ Nat.le_refl _
  | case2 => exact (Option.some.inj reads) ▸ Nat.zero_le _
  | case3 => contradiction
  | case4 => exact (Option.some.inj reads) ▸ Nat.le_refl _
  | case5 => exact (Option.some.inj reads) ▸ Nat.zero_le _
  | case6 next rest _ inductionHypothesis =>
    obtain ⟨text', reads', rfl⟩ := Option.map_eq_some_iff.mp reads
    have := inductionHypothesis reads'
    simp only [List.length_cons]
    omega
  | case7 byte next rest _ _ inductionHypothesis =>
    obtain ⟨text', reads', rfl⟩ := Option.map_eq_some_iff.mp reads
    exact Nat.succ_le_succ (inductionHypothesis reads')

/-- A buffer is read back as it is when no byte of it looks like an escape. -/
theorem readBack_eq_iff (bytes : List UInt8) : readBack bytes = some bytes ↔ Unescaped bytes := by
  induction bytes with
  | nil => exact iff_of_true rfl fun _ absent => by contradiction
  | cons byte rest inductionHypothesis =>
    have split : Unescaped (byte :: rest) ↔ (byte ≠ 0 ∧ byte ≠ 1) ∧ Unescaped rest :=
      List.forall_mem_cons
    rw [split]
    by_cases isZero : byte = 0
    · refine iff_of_false (fun reads => ?_) fun plain => plain.1.1 isZero
      rw [isZero, readBack_zero] at reads
      exact List.cons_ne_nil _ _ (Option.some.inj reads).symm
    by_cases isOne : byte = 1
    · refine iff_of_false (fun reads => ?_) fun plain => plain.1.2 isOne
      subst isOne
      cases rest with
      | nil => contradiction
      | cons next rest =>
        -- A literal byte takes two bytes of the buffer.
        rw [readBack, if_neg isZero, if_pos rfl] at reads
        obtain ⟨text, reads', same⟩ := Option.map_eq_some_iff.mp reads
        have shorter := readBack_length_le rest reads'
        have length := congrArg List.length same
        simp only [List.length_cons] at length
        omega
    · rw [readBack_plain isZero isOne, Option.map_eq_some_iff, and_iff_right ⟨isZero, isOne⟩,
        ← inductionHypothesis]
      refine ⟨fun ⟨text, reads, same⟩ => ?_, fun reads => ⟨rest, reads, rfl⟩⟩
      rw [reads, (List.cons.inj same).2]

section Reads

variable (singleByte : options.utf8Mode = false)

include singleByte

theorem nextOfPiece_one {next : UInt8} {rest : List UInt8}
    (starts : stream.remaining = 1 :: next :: rest) :
    nextOfPiece options locale stream =
      .ok (.inl (.single next), stream.advance [1, next] rest) := by
  unfold nextOfPiece
  rw [readNextChar_cons singleByte starts, ok_bind]
  dsimp only
  rw [if_neg (by decide), if_pos (by decide), readNextChar_cons singleByte
    (advance_remaining stream [1] (next :: rest)), ok_bind, advance_advance]
  rfl

theorem nextOfPiece_plain {byte : UInt8} {rest : List UInt8} (notZero : byte ≠ 0)
    (notOne : byte ≠ 1) (starts : stream.remaining = byte :: rest) :
    nextOfPiece options locale stream = .ok (.inl (.single byte), stream.advance [byte] rest) := by
  have isEscaped : escapeByte byte = [byte] := if_neg (not_or.mpr ⟨notZero, notOne⟩)
  have next := @nextOfPiece_escapeByte options locale stream rest singleByte byte
  rw [isEscaped] at next
  exact next starts

theorem nextOfPiece_dangling (starts : stream.remaining = [1]) :
    nextOfPiece options locale stream = .error (.fatal "Error reading back input\n") := by
  unfold nextOfPiece
  rw [readNextChar_cons singleByte starts, ok_bind]
  dsimp only
  rw [if_neg (by decide), if_pos (by decide),
    readNextChar_end singleByte (advance_remaining stream [1] [])]
  rfl

/-- The characters that are read are those that `readBack` gives. -/
theorem reads_of_readBack {bytes text : List UInt8} (isText : readBack bytes = some text)
    (holds : stream.remaining = bytes) :
    ∃ pieceEnd final, pieceEnd ≠ .stopped ∧
      Reads options locale stream (text.map .single) pieceEnd final := by
  fun_induction readBack bytes generalizing stream text with
  | case1 =>
    obtain rfl := Option.some.inj isText
    exact ⟨.endOfFile, _, nofun, .done (nextOfPiece_end singleByte holds)⟩
  | case2 =>
    obtain rfl := Option.some.inj isText
    exact ⟨.terminator, _, nofun, .done (nextOfPiece_terminator singleByte holds)⟩
  | case3 => contradiction
  | case4 byte notZero notOne =>
    obtain rfl := Option.some.inj isText
    exact ⟨.endOfFile, _, nofun, .more (nextOfPiece_plain singleByte notZero notOne holds)
      (.done (nextOfPiece_end singleByte (advance_remaining stream [byte] [])))⟩
  | case5 =>
    obtain rfl := Option.some.inj isText
    exact ⟨.terminator, _, nofun, .done (nextOfPiece_terminator singleByte holds)⟩
  | case6 next rest notZero inductionHypothesis =>
    obtain ⟨text', isText', rfl⟩ := Option.map_eq_some_iff.mp isText
    obtain ⟨pieceEnd, final, whole, reads⟩ :=
      inductionHypothesis isText' (advance_remaining stream [1, next] rest)
    exact ⟨pieceEnd, final, whole, .more (nextOfPiece_one singleByte holds) reads⟩
  | case7 byte next rest notZero notOne inductionHypothesis =>
    obtain ⟨text', isText', rfl⟩ := Option.map_eq_some_iff.mp isText
    obtain ⟨pieceEnd, final, whole, reads⟩ :=
      inductionHypothesis isText' (advance_remaining stream [byte] (next :: rest))
    exact ⟨pieceEnd, final, whole, .more (nextOfPiece_plain singleByte notZero notOne holds) reads⟩

/-- A buffer that cannot be read back still cannot be after one of its characters. -/
theorem nextOfPiece_unreadable (unreadable : readBack stream.remaining = none) :
    (∃ failure, nextOfPiece options locale stream = .error failure) ∨
      ∃ char next, nextOfPiece options locale stream = .ok (.inl char, next) ∧
        readBack next.remaining = none := by
  generalize holds : stream.remaining = bytes at unreadable
  unfold readBack at unreadable
  split at unreadable
  · contradiction
  · rename_i byte
    split at unreadable
    · contradiction
    · split at unreadable
      · rename_i isOne
        exact Or.inl ⟨_, nextOfPiece_dangling singleByte (isOne ▸ holds)⟩
      · contradiction
  · rename_i byte next rest
    split at unreadable
    · contradiction
    · rename_i notZero
      split at unreadable
      · rename_i isOne
        exact Or.inr ⟨_, _, nextOfPiece_one singleByte (isOne ▸ holds), by
          rw [advance_remaining]; exact Option.map_eq_none_iff.mp unreadable⟩
      · rename_i notOne
        exact Or.inr ⟨_, _, nextOfPiece_plain singleByte notZero notOne holds, by
          rw [advance_remaining]; exact Option.map_eq_none_iff.mp unreadable⟩

/-- A loop over such a buffer does not get to its end. -/
theorem forPiece_unreadable {State : Type} (body : ReadChar → State → Except Failure (Bool × State))
    (fuel : Nat) (unreadable : readBack stream.remaining = none) (state : State) :
    Meets (fun _ => True) (fun result => result.1 = .stopped ∧
        readBack result.2.1.remaining = none ∧
        ∃ char before after, body char before = .ok (true, after))
      (forPiece options locale body fuel stream state) := by
  induction fuel generalizing stream state with
  | zero => trivial
  | succ fuel inductionHypothesis =>
    unfold forPiece
    rcases @nextOfPiece_unreadable options locale stream singleByte unreadable with
      ⟨failure, fails⟩ | ⟨char, next, reads, unreadable'⟩
    · rw [fails]
      trivial
    · rw [reads, ok_bind]
      dsimp only
      cases isResult : body char state with
      | error failure => trivial
      | ok result =>
        obtain ⟨stop, state'⟩ := result
        cases stop with
        | true => exact ⟨rfl, unreadable', char, state, state', isResult⟩
        | false => exact inductionHypothesis unreadable' state'

theorem forPiece_always_unreadable {State : Type} (body : ReadChar → State → Except Failure State)
    (fuel : Nat) (unreadable : readBack stream.remaining = none) (state : State) :
    Meets (fun _ => True) (fun _ => False)
      (forPiece options locale (always body) fuel stream state) := by
  refine (forPiece_unreadable singleByte (always body) fuel unreadable state).mono ?_
  rintro result ⟨-, -, char, before, after, stops⟩
  obtain ⟨_, -, answer⟩ := bind_eq_ok.mp stops
  exact Bool.false_ne_true (Prod.mk.inj (Except.ok.inj answer)).1

end Reads

/-! ### What is printed and counted -/

/-- How a byte of the A file is printed. -/
def printSynchronizedByte (options : Options) (byte : UInt8) (screen : Screen) : Screen :=
  if options.printCommon then
    rememberLineBreak (.single byte)
      ((doPostLinefeed options .common screen).emit (.addchar byte true))
  else screen

/-- What a byte of the A file does to the screen, and to the lines that are left of the B file. -/
def synchronizeByte (options : Options) (sideA : Side) (loop : Screen × Nat) (byte : UInt8) :
    Screen × Nat :=
  let printed := printSynchronizedByte options byte loop.1
  if byte = 10 then
    if loop.2 = 0 then (countLine sideA printed, 0)
    else (countLine sideA.other (countLine sideA printed), loop.2 - 1)
  else (printed, loop.2)

/-- What `handleSynchronizedNextWhitespace` does to the screen, when it reads these bytes of the
A file and this many lines of the B file. -/
def printSynchronized (options : Options) (sideA : Side) (text : List UInt8) (lines : Nat)
    (screen : Screen) : Screen :=
  let loop := text.foldl (synchronizeByte options sideA) (screen, lines)
  (countLine sideA.other)^[loop.2] loop.1

/-- The lines that are left of the B file. -/
def Ahead (options : Options) (locale : Locale) (lines : Nat) (stream : Stream) (valid : Bool) :
    Prop :=
  if valid then
    ∃ chars pieceEnd final, pieceEnd ≠ .stopped ∧ Reads options locale stream chars pieceEnd final ∧
      lineFeeds chars = lines
  else lines = 0

theorem lineFeeds_cons (char : ReadChar) (chars : List ReadChar) :
    lineFeeds (char :: chars) = lineFeeds chars + if char.equals 10 then 1 else 0 :=
  List.countP_cons

theorem toNextLine_ahead {final : Stream} {chars : List ReadChar} {pieceEnd : PieceEnd}
    (whole : pieceEnd ≠ .stopped) (reads : Reads options locale stream chars pieceEnd final)
    {fuel : Nat} (enough : chars.length < fuel) (side : Side) (screen : Screen) :
    ∃ ended next, forPiece options locale (toNextLine side) fuel stream screen =
        .ok (ended, next, if lineFeeds chars = 0 then screen else countLine side screen) ∧
      Ahead options locale (lineFeeds chars - 1) next (ended == .stopped) := by
  induction reads generalizing fuel with
  | @done stream final pieceEnd ends =>
    obtain ⟨fuel, rfl⟩ := exists_round enough
    refine ⟨pieceEnd, final, ?_, ?_⟩
    · rw [forPiece, ends]
      rfl
    · rw [beq_eq_false_iff_ne.mpr whole]
      rfl
  | @more stream next final char chars pieceEnd reads rest inductionHypothesis =>
    obtain ⟨fuel, rfl⟩ := exists_round enough
    rw [forPiece, reads, ok_bind, lineFeeds_cons]
    dsimp only
    unfold toNextLine
    cases newline : char.equals 10 with
    | true =>
      rw [if_pos rfl, if_pos rfl, if_neg (Nat.succ_ne_zero _), Nat.add_sub_cancel]
      exact ⟨.stopped, next, rfl, chars, pieceEnd, final, whole, rest, rfl⟩
    | false => exact inductionHypothesis whole (Nat.lt_of_succ_lt_succ enough)

theorem followLine_ahead (ahead : Ahead options locale lines stream valid) (sideA : Side)
    (screen : Screen) :
    ∃ stream' valid', followLine options locale sideA sideA.other (screen, stream, valid) =
        .ok (if lines = 0 then countLine sideA screen
          else countLine sideA.other (countLine sideA screen), stream', valid') ∧
      Ahead options locale (lines - 1) stream' valid' := by
  cases valid with
  | false =>
    obtain rfl : lines = 0 := ahead
    exact ⟨stream, false, rfl, rfl⟩
  | true =>
    obtain ⟨chars, pieceEnd, final, whole, reads, rfl⟩ := ahead
    obtain ⟨ended, next, isRun, ahead'⟩ :=
      toNextLine_ahead whole reads reads.length_lt sideA.other (countLine sideA screen)
    refine ⟨next, ended == .stopped, ?_, ahead'⟩
    rw [followLine, isRun]
    rfl

theorem synchronize_ahead (ahead : Ahead options locale lines stream valid) (sideA : Side)
    (byte : UInt8) (screen : Screen) :
    ∃ stream' valid', synchronize options locale sideA sideA.other (.single byte)
        (screen, stream, valid) =
          .ok ((synchronizeByte options sideA (screen, lines) byte).1, stream', valid') ∧
      Ahead options locale (synchronizeByte options sideA (screen, lines) byte).2 stream'
        valid' := by
  have prints : onlyIf options.printCommon (printCommonChar options (.single byte)) screen =
      .ok (printSynchronizedByte options byte screen) := by
    unfold onlyIf printSynchronizedByte
    split <;> rfl
  unfold synchronize synchronizeByte
  dsimp only
  rw [prints, ok_bind, single_equals_newline]
  by_cases newline : byte = 10
  · rw [if_pos newline, decide_eq_true newline]
    obtain ⟨stream', valid', follows, ahead'⟩ := followLine_ahead ahead sideA _
    refine ⟨stream', valid', follows.trans ?_, ?_⟩
    · split <;> rfl
    · split
      · rename_i none
        rwa [none] at ahead'
      · exact ahead'
  · rw [if_neg newline, decide_eq_false newline]
    exact ⟨stream, valid, rfl, ahead⟩

theorem countLines_foldlM (side : Side) (chars : List ReadChar) (screen : Screen) :
    chars.foldlM (fun screen char => countLines side char screen) screen =
      Except.ok ((countLine side)^[lineFeeds chars] screen) := by
  induction chars generalizing screen with
  | nil => rfl
  | cons char chars inductionHypothesis =>
    rw [List.foldlM_cons, countLines, ok_bind, inductionHypothesis, lineFeeds_cons]
    cases char.equals 10 <;> rfl

theorem skipRest_ahead (ahead : Ahead options locale lines stream valid) (side : Side)
    (screen : Screen) :
    ∃ final, skipRest options locale side (screen, stream, valid) =
      .ok ((countLine side)^[lines] screen, final) := by
  cases valid with
  | false =>
    obtain rfl : lines = 0 := ahead
    exact ⟨stream, rfl⟩
  | true =>
    obtain ⟨chars, pieceEnd, final, whole, reads, rfl⟩ := ahead
    refine ⟨final, ?_⟩
    rw [skipRest, forPiece_always _ reads, countLines_foldlM]
    rfl

theorem synchronize_foldlM (ahead : Ahead options locale lines stream valid) (sideA : Side)
    (text : List UInt8) (screen : Screen) :
    ∃ stream' valid', (text.map ReadChar.single).foldlM (fun loop char =>
        synchronize options locale sideA sideA.other char loop) (screen, stream, valid) =
          Except.ok ((text.foldl (synchronizeByte options sideA) (screen, lines)).1, stream',
            valid') ∧
      Ahead options locale (text.foldl (synchronizeByte options sideA) (screen, lines)).2 stream'
        valid' := by
  induction text generalizing lines stream valid screen with
  | nil => exact ⟨stream, valid, rfl, ahead⟩
  | cons byte text inductionHypothesis =>
    obtain ⟨stream', valid', isRound, ahead'⟩ := synchronize_ahead ahead sideA byte screen
    rw [List.map_cons, List.foldlM_cons, List.foldl_cons, isRound, ok_bind]
    exact inductionHypothesis ahead' _

theorem afterWhitespace_screen (state : Printing) (side : Side) (stream : Stream) :
    (state.afterWhitespace options locale side stream).screen = state.screen := by
  unfold Printing.afterWhitespace
  dsimp only
  split
  · rfl
  · cases side <;> rfl

/-- `handleSynchronizedNextWhitespace` on two pieces that can be read. -/
theorem handleSynchronizedNextWhitespace_eq {printNew : Bool} {sideA : Side}
    (isSide : (if printNew then Side.new else Side.old) = sideA) {state : Printing}
    {textA textB : List UInt8} {endA endB : PieceEnd} {finalA finalB : Stream}
    (readsA : Reads options locale (state.file sideA).whitespaceStream (textA.map .single) endA
      finalA)
    (readsB : Reads options locale (state.file sideA.other).whitespaceStream (textB.map .single)
      endB finalB) (whole : endB ≠ .stopped) :
    ∃ final, handleSynchronizedNextWhitespace options locale printNew state = .ok final ∧
      final.screen = printSynchronized options sideA textA (textB.count 10) state.screen := by
  have ahead : Ahead options locale (textB.count 10)
      (state.file sideA.other).whitespaceStream true :=
    ⟨_, endB, finalB, whole, readsB, lineFeeds_single textB⟩
  obtain ⟨stream, valid, folds, ahead'⟩ := synchronize_foldlM ahead sideA textA state.screen
  obtain ⟨last, skips⟩ := skipRest_ahead ahead' sideA.other _
  unfold handleSynchronizedNextWhitespace
  rw [isSide]
  dsimp only
  rw [forPiece_always _ readsA, folds, ok_bind, ok_bind]
  dsimp only
  rw [skips]
  refine ⟨_, rfl, ?_⟩
  rw [afterWhitespace_screen, afterWhitespace_screen]
  rfl

theorem synchronize_unreadable (singleByte : options.utf8Mode = false) (sideA : Side)
    (char : ReadChar) (loop : Screen × Stream × Bool)
    (unreadable : loop.2.2 = true ∧ readBack loop.2.1.remaining = none) :
    Meets (fun _ => True) (fun after => after.2.2 = true ∧ readBack after.2.1.remaining = none)
      (synchronize options locale sideA sideA.other char loop) := by
  obtain ⟨screen, stream, valid⟩ := loop
  obtain ⟨rfl, isNone⟩ := unreadable
  unfold synchronize
  refine @Meets.bind _ _ _ _ (fun _ => True) _ _ _ ?_ fun printed _ => ?_
  · cases onlyIf options.printCommon (printCommonChar options char) screen <;> trivial
  · unfold onlyIf
    split
    · refine (forPiece_unreadable singleByte _ _ isNone _).bind ?_
      rintro ⟨pieceEnd, stream', screen'⟩ ⟨stopped, isNone', -⟩
      exact ⟨beq_iff_eq.mpr stopped, isNone'⟩
    · exact ⟨rfl, isNone⟩

/-- It fails when one of them cannot. -/
theorem handleSynchronizedNextWhitespace_unreadable (singleByte : options.utf8Mode = false)
    {printNew : Bool} {sideA : Side} (isSide : (if printNew then Side.new else Side.old) = sideA)
    {state : Printing} {side : Side}
    (unreadable : readBack (state.file side).whitespaceStream.remaining = none) :
    Meets (fun _ => True) (fun _ => False)
      (handleSynchronizedNextWhitespace options locale printNew state) := by
  unfold handleSynchronizedNextWhitespace
  rw [isSide]
  dsimp only
  by_cases isA : side = sideA
  · rw [isA] at unreadable
    exact (forPiece_always_unreadable singleByte _ _ unreadable _).bind fun _ absurd => absurd.elim
  · obtain rfl : side = sideA.other := by cases side <;> cases sideA <;> trivial
    refine (@forPiece_meets_any (Screen × Stream × Bool) options locale _ (fun _ => True)
      (fun loop => loop.2.2 = true ∧ readBack loop.2.1.remaining = none)
      (always (synchronize options locale sideA sideA.other)) (fun _ _ => trivial)
      (fun char loop kept => (synchronize_unreadable singleByte sideA char loop kept).bind
        fun _ kept' => kept') _ (weight_lt_rounds _) _ ⟨rfl, unreadable⟩).bind ?_
    rintro ⟨pieceEnd, stream, screen, streamB, valid⟩ ⟨isValid, unreadable'⟩
    dsimp only at isValid unreadable'
    subst isValid
    refine @Meets.bind _ _ _ _ (fun _ => False) _ _ _ ?_ fun _ absurd => absurd.elim
    exact (forPiece_always_unreadable singleByte _ _ unreadable' _).bind fun _ absurd => absurd.elim

theorem countLine_commute (side : Side) :
    Function.Commute (countLine side) (countLine side.other) := by
  intro screen
  cases side <;> rfl

/-- When common text is not printed only lines are counted. -/
theorem printSynchronized_unprinted (quiet : options.printCommon = false) (sideA : Side)
    (text : List UInt8) (lines : Nat) (screen : Screen) :
    printSynchronized options sideA text lines screen =
      (countLine sideA.other)^[lines] ((countLine sideA)^[text.count 10] screen) := by
  induction text generalizing lines screen with
  | nil => rfl
  | cons byte text inductionHypothesis =>
    have step : printSynchronized options sideA (byte :: text) lines screen =
        printSynchronized options sideA text (synchronizeByte options sideA (screen, lines) byte).2
          (synchronizeByte options sideA (screen, lines) byte).1 := rfl
    have unprinted : printSynchronizedByte options byte screen = screen :=
      if_neg (by rw [quiet]; exact Bool.false_ne_true)
    rw [step, inductionHypothesis, synchronizeByte]
    dsimp only
    rw [unprinted]
    by_cases newline : byte = 10
    · rw [if_pos newline, newline, List.count_cons_self]
      cases lines with
      | zero => rfl
      | succ lines =>
        rw [if_neg (Nat.succ_ne_zero lines), Nat.add_sub_cancel, Function.iterate_succ_apply,
          Function.iterate_succ_apply, ((countLine_commute sideA).iterate_left _).eq]
    · rw [if_neg newline, List.count_cons_of_ne newline]

/-- The characters that were passed to `addchar`. -/
def printedBytes (output : List Emission) : List UInt8 :=
  output.flatMap fun
    | .addchar c _ => [c]
    | _ => []

theorem doPostLinefeed_common_printed (screen : Screen) :
    printedBytes (doPostLinefeed options .common screen).output = printedBytes screen.output := by
  unfold doPostLinefeed
  dsimp only
  split
  · rw [if_neg (by simp [Mode.isCommon])]
    split
    · simp [Screen.emit, Screen.emitIf, Mode.isCommon, printedBytes]
    · rfl
  · rfl

theorem synchronizeByte_printed (sideA : Side) (loop : Screen × Nat) (byte : UInt8) :
    printedBytes (synchronizeByte options sideA loop byte).1.output =
      printedBytes loop.1.output ++ if options.printCommon then [byte] else [] := by
  have written : printedBytes (printSynchronizedByte options byte loop.1).output =
      printedBytes loop.1.output ++ if options.printCommon then [byte] else [] := by
    unfold printSynchronizedByte
    split
    · rw [← @doPostLinefeed_common_printed options loop.1]
      exact List.flatMap_append
    · rw [List.append_nil]
  unfold synchronizeByte
  dsimp only
  split
  · split
    · rw [countLine_output]
      exact written
    · rw [countLine_output, countLine_output]
      exact written
  · exact written

/-- The characters of the A file are printed. -/
theorem printSynchronized_printed (sideA : Side) (text : List UInt8) (lines : Nat)
    (screen : Screen) :
    printedBytes (printSynchronized options sideA text lines screen).output =
      printedBytes screen.output ++ if options.printCommon then text else [] := by
  have counted : ∀ n screen, ((countLine sideA.other)^[n] screen).output = screen.output := by
    intro n
    induction n with
    | zero => exact fun _ => rfl
    | succ n inductionHypothesis =>
      exact fun screen => (inductionHypothesis _).trans (countLine_output _ _)
  unfold printSynchronized
  dsimp only
  rw [counted]
  induction text generalizing lines screen with
  | nil => rw [ite_self, List.append_nil]; rfl
  | cons byte text inductionHypothesis =>
    rw [List.foldl_cons, ← Prod.eta (synchronizeByte options sideA (screen, lines) byte),
      inductionHypothesis, synchronizeByte_printed, List.append_assoc]
    split <;> rfl

theorem countLine_line (side other : Side) (screen : Screen) :
    (countLine side screen).line other = screen.line other + if side = other then 1 else 0 := by
  cases side <;> cases other <;> rfl

theorem printSynchronizedByte_line (byte : UInt8) (screen : Screen) :
    (printSynchronizedByte options byte screen).line = screen.line := by
  unfold printSynchronizedByte
  split
  · exact doPostLinefeed_line .common screen
  · rfl

theorem synchronizeByte_line (sideA : Side) (loop : Screen × Nat) (byte : UInt8) :
    (synchronizeByte options sideA loop byte).1.line sideA =
        loop.1.line sideA + (if byte = 10 then 1 else 0) ∧
      (synchronizeByte options sideA loop byte).1.line sideA.other +
        (synchronizeByte options sideA loop byte).2 = loop.1.line sideA.other + loop.2 := by
  have different : sideA ≠ sideA.other ∧ sideA.other ≠ sideA := by
    cases sideA <;> exact ⟨nofun, nofun⟩
  unfold synchronizeByte
  dsimp only
  by_cases newline : byte = 10
  · rw [if_pos newline, if_pos newline]
    split
    · rename_i none
      simp only [countLine_line, printSynchronizedByte_line, if_neg different.1, if_pos, none,
        and_self]
    · rename_i some
      simp only [countLine_line, printSynchronizedByte_line, if_neg different.1,
        if_neg different.2, if_pos]
      exact ⟨by trivial, by omega⟩
  · rw [if_neg newline, if_neg newline]
    simp only [printSynchronizedByte_line, Nat.add_zero, and_self]

/-- The lines of both files are counted. -/
theorem printSynchronized_line (sideA : Side) (text : List UInt8) (lines : Nat) (screen : Screen) :
    (printSynchronized options sideA text lines screen).line sideA =
        screen.line sideA + text.count 10 ∧
      (printSynchronized options sideA text lines screen).line sideA.other =
        screen.line sideA.other + lines := by
  have counted : ∀ n screen, ((countLine sideA.other)^[n] screen).line sideA = screen.line sideA ∧
      ((countLine sideA.other)^[n] screen).line sideA.other = screen.line sideA.other + n := by
    intro n
    induction n with
    | zero => exact fun _ => ⟨rfl, rfl⟩
    | succ n inductionHypothesis =>
      intro screen
      obtain ⟨same, more⟩ := inductionHypothesis (countLine sideA.other screen)
      rw [Function.iterate_succ_apply, same, more, countLine_line, countLine_line, if_pos rfl]
      exact ⟨by cases sideA <;> rfl, by omega⟩
  induction text generalizing lines screen with
  | nil => exact counted lines screen
  | cons byte text inductionHypothesis =>
    have step := @synchronizeByte_line options sideA (screen, lines) byte
    have rest := inductionHypothesis (synchronizeByte options sideA (screen, lines) byte).2
      (synchronizeByte options sideA (screen, lines) byte).1
    dsimp only at step
    refine ⟨rest.1.trans ?_, rest.2.trans step.2⟩
    rw [step.1, List.count_cons, beq_eq_decide]
    simp only [decide_eq_true_iff]
    omega

/-- The screen shows the lines that were read, and the text of the A file if it is printed. -/
theorem printSynchronized_eq_iff (sideA : Side) (text text' : List UInt8) (lines lines' : Nat)
    (screen : Screen) :
    printSynchronized options sideA text lines screen =
        printSynchronized options sideA text' lines' screen ↔
      lines = lines' ∧ text.count 10 = text'.count 10 ∧
        (options.printCommon = true → text = text') := by
  refine ⟨fun same => ⟨?_, ?_, fun printed => ?_⟩, fun ⟨sameLines, sameCount, sameText⟩ => ?_⟩
  · have counted := congrArg (fun screen => screen.line sideA.other) same
    rwa [(printSynchronized_line _ _ _ _).2, (printSynchronized_line _ _ _ _).2,
      Nat.add_left_cancel_iff] at counted
  · have counted := congrArg (fun screen => screen.line sideA) same
    rwa [(printSynchronized_line _ _ _ _).1, (printSynchronized_line _ _ _ _).1,
      Nat.add_left_cancel_iff] at counted
  · have shown := congrArg (fun screen => printedBytes screen.output) same
    rwa [printSynchronized_printed, printSynchronized_printed, if_pos printed, if_pos printed,
      List.append_cancel_left_eq] at shown
  · rw [sameLines]
    cases quiet : options.printCommon with
    | true => rw [sameText quiet]
    | false => rw [printSynchronized_unprinted quiet, printSynchronized_unprinted quiet, sameCount]

/-! ### Loaded whitespace -/

/-- A run is read back from a buffer as far as it matters: with all its lines, and as it is when
it is printed. -/
def ReadsBack (printed : Bool) (run : List UInt8) : Prop :=
  ∃ text, readBack run = some text ∧ text.count 10 = run.count 10 ∧
    (printed = true → Unescaped run)

section Loaded

variable {state : Printing} {runs : Side → List UInt8}

/-- What is left of a run when both are in the buffers. -/
theorem handleSynchronizedNextWhitespace_loaded (singleByte : options.utf8Mode = false)
    {printNew : Bool} {sideA : Side} (isSide : (if printNew then Side.new else Side.old) = sideA)
    (loaded : ∀ side, (state.file side).whitespaceStream = newStringStream (runs side)) :
    (∃ final, handleSynchronizedNextWhitespace options locale printNew state = .ok final ∧
        final.screen = printSynchronized options sideA (runs sideA)
          ((runs sideA.other).count 10) state.screen) ↔
      ReadsBack options.printCommon (runs sideA) ∧ ReadsBack false (runs sideA.other) := by
  have fails : ∀ side, readBack (runs side) = none →
      ∀ final, handleSynchronizedNextWhitespace options locale printNew state ≠ .ok final := by
    intro side isNone final returns
    have meets := @handleSynchronizedNextWhitespace_unreadable options locale singleByte printNew
      sideA isSide state side (by rw [loaded]; exact isNone)
    rwa [returns] at meets
  cases isA : readBack (runs sideA) with
  | none =>
    refine iff_of_false (fun ⟨final, returns, _⟩ => fails sideA isA final returns) ?_
    rintro ⟨⟨text, isText, -⟩, -⟩
    rw [isA] at isText
    contradiction
  | some textA =>
    cases isB : readBack (runs sideA.other) with
    | none =>
      refine iff_of_false (fun ⟨final, returns, _⟩ => fails _ isB final returns) ?_
      rintro ⟨-, text, isText, -⟩
      rw [isB] at isText
      contradiction
    | some textB =>
      obtain ⟨endA, finalA, -, readsA⟩ := @reads_of_readBack options locale
        (state.file sideA).whitespaceStream singleByte _ _ isA (by rw [loaded]; rfl)
      obtain ⟨endB, finalB, whole, readsB⟩ := @reads_of_readBack options locale
        (state.file sideA.other).whitespaceStream singleByte _ _ isB (by rw [loaded]; rfl)
      obtain ⟨final, returns, isScreen⟩ :=
        handleSynchronizedNextWhitespace_eq isSide readsA readsB whole
      have same : (∃ final, handleSynchronizedNextWhitespace options locale printNew state =
          .ok final ∧ final.screen = printSynchronized options sideA (runs sideA)
            ((runs sideA.other).count 10) state.screen) ↔
          final.screen = printSynchronized options sideA (runs sideA)
            ((runs sideA.other).count 10) state.screen := by
        refine ⟨fun ⟨final', returns', isSame⟩ => ?_, fun isSame => ⟨final, returns, isSame⟩⟩
        rw [returns] at returns'
        rwa [Except.ok.inj returns']
      rw [same, isScreen, printSynchronized_eq_iff, ReadsBack, ReadsBack, isA, isB]
      have plain : textA = runs sideA ↔ Unescaped (runs sideA) := by
        rw [← readBack_eq_iff, isA, Option.some.injEq]
      rw [plain]
      refine ⟨fun ⟨linesB, linesA, printed⟩ => ⟨⟨textA, rfl, linesA, printed⟩,
        textB, rfl, linesB, nofun⟩, ?_⟩
      rintro ⟨⟨text, isText, linesA, printed⟩, text', isText', linesB, -⟩
      obtain rfl := Option.some.inj isText
      obtain rfl := Option.some.inj isText'
      exact ⟨linesB, linesA, printed⟩

/-- Both runs are loaded, and nothing is printed. -/
theorem loadNextWhitespace_both {finals : Side → Stream} (reads : ∀ side, Reads options locale
      (state.file side).whitespace ((runs side).map .single) .terminator (finals side)) :
    ∃ loadedOld loaded, loadNextWhitespace options locale .old state = .ok loadedOld ∧
      loadNextWhitespace options locale .new loadedOld.2 = .ok loaded ∧
      loaded.2.screen = state.screen ∧ ∀ side, (loaded.2.file side).whitespaceBuffer = runs side ∧
        (loaded.2.file side).whitespaceBufferUsed = true := by
  refine ⟨_, _, loadNextWhitespace_eq (reads .old), loadNextWhitespace_eq (reads .new), rfl,
    fun side => ?_⟩
  cases side <;> exact ⟨rfl, rfl⟩

/-- When the whitespace of both files was loaded, it is printed and counted as it is when it is
read from the files exactly if both runs are read back. -/
theorem loadedWhitespace_iff (singleByte : options.utf8Mode = false) (printNew : Bool)
    {rest : Side → List UInt8}
    (stored : ∀ side, (state.file side).whitespace.remaining = escaped (runs side) ++ rest side)
    (unused : ∀ side, (state.file side).whitespaceBufferUsed = false) :
    let sideA := if printNew then Side.new else Side.old
    ∃ direct loadedOld loaded,
      handleSynchronizedNextWhitespace options locale printNew state = .ok direct ∧
      printedBytes direct.screen.output =
        printedBytes state.screen.output ++ (if options.printCommon then runs sideA else []) ∧
      (∀ side, direct.screen.line side = state.screen.line side + (runs side).count 10) ∧
      loadNextWhitespace options locale .old state = .ok loadedOld ∧
      loadNextWhitespace options locale .new loadedOld.2 = .ok loaded ∧
      (∀ side, (loaded.2.file side).whitespaceBuffer = runs side) ∧
      ((∃ final, handleSynchronizedNextWhitespace options locale printNew loaded.2 = .ok final ∧
          final.screen = direct.screen) ↔
        ReadsBack options.printCommon (runs sideA) ∧ ReadsBack false (runs sideA.other)) := by
  intro sideA
  have reads : ∀ side, Reads options locale (state.file side).whitespace ((runs side).map .single)
      .terminator ((state.file side).whitespace.advance (escaped (runs side)) (rest side)) :=
    fun side => reads_of_readPiece (readPiece_escaped singleByte (Nat.lt_succ_self _) (stored side))
  have direct : ∀ side, (state.file side).whitespaceStream = (state.file side).whitespace :=
    fun side => if_neg (by rw [unused side]; exact Bool.false_ne_true)
  obtain ⟨final, returns, isScreen⟩ := @handleSynchronizedNextWhitespace_eq options locale printNew
    sideA rfl state (runs sideA) (runs sideA.other) .terminator .terminator _ _
    (by rw [direct]; exact reads sideA) (by rw [direct]; exact reads sideA.other) nofun
  obtain ⟨loadedOld, loaded, loadsOld, loadsNew, sameScreen, buffers⟩ :=
    loadNextWhitespace_both reads
  refine ⟨final, loadedOld, loaded, returns, ?_, fun side => ?_, loadsOld, loadsNew,
    fun side => (buffers side).1, ?_⟩
  · rw [isScreen, printSynchronized_printed]
  · have lines := @printSynchronized_line options sideA (runs sideA) ((runs sideA.other).count 10)
      state.screen
    rw [isScreen]
    by_cases isA : side = sideA
    · rw [isA]
      exact lines.1
    · obtain rfl : side = sideA.other := by
        revert isA
        cases side <;> cases sideA <;> simp [Side.other]
      exact lines.2
  · have strings : ∀ side, (loaded.2.file side).whitespaceStream = newStringStream (runs side) := by
      intro side
      rw [InputFile.whitespaceStream, if_pos (buffers side).2, (buffers side).1]
      rfl
    rw [isScreen, ← sameScreen]
    exact handleSynchronizedNextWhitespace_loaded singleByte rfl strings

/-- Two files of which these runs are still to be read. -/
def holdingRuns (runs : Side → List UInt8) : Printing :=
  { initialPrinting with
    oldFile := { emptyFile with whitespace := newFileStream (escaped (runs .old)) }
    newFile := { emptyFile with whitespace := newFileStream (escaped (runs .new)) } }

/-- Two runs with line feeds and spaces. -/
def blankRuns : Side → List UInt8
  | .old => [10, 32]
  | .new => [32, 10, 10]

theorem loadedWhitespace_lines :
    ∃ direct loadedOld loaded final,
      handleSynchronizedNextWhitespace defaultOptions cLocale true (holdingRuns blankRuns) =
        .ok direct ∧
      loadNextWhitespace defaultOptions cLocale .old (holdingRuns blankRuns) = .ok loadedOld ∧
      loadNextWhitespace defaultOptions cLocale .new loadedOld.2 = .ok loaded ∧
      handleSynchronizedNextWhitespace defaultOptions cLocale true loaded.2 = .ok final ∧
      final.screen = direct.screen := by
  obtain ⟨direct, loadedOld, loaded, isDirect, -, -, loadsOld, loadsNew, -, agrees⟩ :=
    @loadedWhitespace_iff defaultOptions cLocale (holdingRuns blankRuns) blankRuns rfl true
      (fun _ => []) (fun side => by cases side <;> rfl) (fun side => by cases side <;> rfl)
  obtain ⟨final, returns, same⟩ := agrees.mpr
    ⟨⟨[32, 10, 10], rfl, rfl, fun _ => by simp [Unescaped, blankRuns]⟩, [10, 32], rfl, rfl, nofun⟩
  exact ⟨direct, loadedOld, loaded, final, isDirect, loadsOld, loadsNew, returns, same⟩

/-- What is printed when the whitespace was loaded. -/
def printLoaded (options : Options) (locale : Locale) (printNew : Bool) (state : Printing) :
    Except Failure (List UInt8) := do
  let (_, state) ← loadNextWhitespace options locale .old state
  let (_, state) ← loadNextWhitespace options locale .new state
  let state ← handleSynchronizedNextWhitespace options locale printNew state
  .ok (printedBytes state.screen.output)

/-- The byte 1 in whitespace: at the end of the old run it is taken for an escape with nothing
behind it, and inside the new run it is not printed. So two files whose words are separated by
such whitespace cannot be compared. -/
theorem loadedWhitespace_misread :
    printLoaded defaultOptions cLocale true
        (holdingRuns fun | .old => [10, 1] | .new => [10]) =
          .error (.fatal "Error reading back input\n") ∧
      printLoaded defaultOptions cLocale true
        (holdingRuns fun | .old => [10] | .new => [10, 1, 32]) = .ok [10, 32] ∧
      (prepareAndExecuteDiff { defaultOptions with
          whitespace := defaultOptions.whitespace.set 0 (defaultOptions.whitespace[0] ||| 2) }
        cLocale [97, 10, 1, 98] [97, 10, 99] ⟨0, [], [], []⟩ initialPrinting).map
          (fun executed => printedBytes executed.state.screen.output) =
        .error (.fatal "Error reading back input\n") := by
  decide +kernel

end Loaded

end Dwdiff
