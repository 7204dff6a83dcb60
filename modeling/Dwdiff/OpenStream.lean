/-
This file models the streams of `stream.c` over files that are read through system
calls. The file stream of the model, which has all its bytes at hand, is what a
reader sees of such a file. So `getuc` returns on the buffered file what it returns
on the file stream, wherever the buffer ends: it accepts exactly the shortest forms.

A stream over a file may come to an end in two ways: the end of the file is
recorded, or a call has failed and the error is recorded instead. The readers
cannot tell the two apart. Whether a file will fail is settled by the answers of
the system: its buffer is filled again and again until a call fails or delivers
nothing. No function of the readers changes that, and each character takes
something from what is left.
-/

import Dwdiff.Frame
import Dwdiff.OpenFile
import Dwdiff.StringStream

namespace Dwdiff

open Outcome
open Failure (OfText)

/-! ### Files that fail -/

namespace OpenFile

variable {file : OpenFile}

/-- The bytes that are left, at most. -/
def supply (file : OpenFile) : Nat :=
  file.buffer.length - file.bufferIndex + file.unread.length

/-- A file that is open for reading. An error is not recorded behind the end of the file. -/
structure Reading (file : OpenFile) : Prop where
  mode : file.mode = .read
  index : file.bufferIndex ≤ file.buffer.length
  unended : file.errNo ≠ none → file.eof ≠ .hit

/-- A call of `read` on the file has failed, or one will before the end of the file is reached. -/
inductive Fails : OpenFile → Prop where
  | failed {file : OpenFile} (error : file.errNo ≠ none) : Fails file
  | filled {file after : OpenFile} {bytes : List UInt8} (clean : file.errNo = none)
      (fresh : file.eof = .no)
      (reads : readLoop (file.system.patience + fileBufferSize + 1) [] file = .ok (bytes, after))
      (fails : Fails after) : Fails file

/-- A call of `fileGetc` has returned `EOF`. -/
def Finished (file : OpenFile) : Prop := file.errNo ≠ none ∨ file.eof = .hit

/-- The loop around `read` does not look at the buffer it will replace. -/
theorem readLoop_buffer (fuel : Nat) (bytes : List UInt8) (file : OpenFile) (buffer : List UInt8)
    (index : Nat) :
    readLoop fuel bytes { file with buffer := buffer, bufferIndex := index } =
      (readLoop fuel bytes file >>= fun (bytes, after) =>
        .ok (bytes, { after with buffer := buffer, bufferIndex := index })) := by
  induction fuel generalizing bytes file with
  | zero => rfl
  | succ fuel inductionHypothesis =>
    unfold readLoop
    dsimp only
    cases file.system.answer file.calls with
    | nothing => rfl
    | failed errno => rfl
    | interrupted => exact inductionHypothesis bytes { file with calls := file.calls + 1 }
    | bytes count =>
      dsimp only
      rw [show ({ file with buffer := buffer, bufferIndex := index } : OpenFile).unread =
        file.unread from rfl]
      split
      · rfl
      split
      · rfl
      · exact inductionHypothesis _ { file with calls := file.calls + 1, position := _ }

theorem Fails.buffer (fails : file.Fails) (buffer : List UInt8) (index : Nat) :
    ({ file with buffer := buffer, bufferIndex := index } : OpenFile).Fails := by
  induction fails with
  | failed error => exact .failed error
  | @filled file after bytes clean fresh reads fails inductionHypothesis =>
    refine @Fails.filled _ _ bytes clean fresh ?_ inductionHypothesis
    rw [readLoop_buffer, reads]
    rfl

theorem fails_buffer_iff (buffer : List UInt8) (index : Nat) :
    ({ file with buffer := buffer, bufferIndex := index } : OpenFile).Fails ↔ file.Fails :=
  ⟨fun fails => fails.buffer file.buffer file.bufferIndex, fun fails => fails.buffer buffer index⟩

theorem not_fails_of_ended (clean : file.errNo = none) (ended : file.eof ≠ .no) : ¬ file.Fails := by
  rintro (error | ⟨-, fresh, -, -⟩)
  · exact error clean
  · exact ended fresh

theorem fails_filled_iff {after : OpenFile} {bytes : List UInt8} (clean : file.errNo = none)
    (fresh : file.eof = .no)
    (reads : readLoop (file.system.patience + fileBufferSize + 1) [] file = .ok (bytes, after)) :
    after.Fails ↔ file.Fails := by
  refine ⟨.filled clean fresh reads, ?_⟩
  rintro (error | ⟨-, -, reads', fails⟩)
  · exact absurd clean error
  · obtain ⟨-, rfl⟩ := Prod.mk.inj (Except.ok.inj (reads.symm.trans reads'))
    exact fails

/-- A file fails if the next call does. -/
theorem fails_of_answer {errno : Nat} (clean : file.errNo = none) (fresh : file.eof = .no)
    (answers : file.system.answer file.calls = .failed errno) : file.Fails := by
  refine @Fails.filled _ { file with calls := file.calls + 1, errNo := some errno } [] clean fresh
    ?_ (.failed (Option.some_ne_none errno))
  rw [readLoop, answers]

/-- A system that answers with bytes only does not fail. -/
theorem not_fails_of_obliging (obliging : file.system.Obliging) (clean : file.errNo = none) :
    ¬ file.Fails := by
  intro fails
  induction fails with
  | failed error => exact error clean
  | @filled file after bytes _ fresh reads _ inductionHypothesis =>
    obtain ⟨taken, after', reads', filled⟩ := readLoop_refills clean fresh
    obtain ⟨-, rfl⟩ := Prod.mk.inj (Except.ok.inj (reads.symm.trans reads'))
    refine inductionHypothesis ?_ (filled.obliges obliging).1
    rw [filled.system]
    exact obliging

/-- What a reader leaves of a file: it can be read on, and fails if it would have. -/
structure Keeps (file after : OpenFile) : Prop where
  reading : after.Reading
  fails : after.Fails ↔ file.Fails

theorem Reading.forward (reading : file.Reading) (below : file.bufferIndex < file.buffer.length) :
    ∃ byte after, file.nextByte = .ok (some byte, after) ∧ file.Keeps after ∧
      after.supply + 1 ≤ file.supply := by
  refine ⟨file.buffer[file.bufferIndex], { file with bufferIndex := file.bufferIndex + 1 }, ?_,
    ⟨⟨reading.mode, below, reading.unended⟩, fails_buffer_iff _ _⟩, ?_⟩
  · rw [nextByte, List.getElem?_eq_getElem below]
  · show file.buffer.length - (file.bufferIndex + 1) + file.unread.length + 1 ≤
      file.buffer.length - file.bufferIndex + file.unread.length
    omega

/-- What a call of `fileGetc` leaves: a byte takes something, and none is returned at the end. -/
def Gives (file : OpenFile) (byte : Option UInt8) (after : OpenFile) : Prop :=
  file.Keeps after ∧ after.supply + (if byte.isSome then 1 else 0) ≤ file.supply ∧
    (byte = none → after.Finished)

/-- The buffer is filled again. -/
theorem fileGetc_fills (reading : file.Reading) (clean : file.errNo = none)
    (spent : file.buffer.length ≤ file.bufferIndex) (fresh : file.eof = .no) :
    ∃ byte after, file.fileGetc = .ok (byte, after) ∧ file.Gives byte after := by
  obtain ⟨taken, after, reads, filled⟩ := readLoop_refills clean fresh
  have sameFails := fails_filled_iff clean fresh reads
  have split : file.unread.length = taken.length + after.unread.length := by
    rw [filled.unread, List.length_append]
  have supplied : after.supply ≤ file.supply := by
    rw [supply, supply, filled.sameBuffer, filled.sameIndex]
    omega
  have mode : after.mode = .read := filled.mode.trans reading.mode
  have index : after.bufferIndex ≤ after.buffer.length := by
    rw [filled.sameBuffer, filled.sameIndex]
    exact reading.index
  unfold fileGetc
  rw [assert_mode reading.mode, ok_bind, if_neg (not_not.mpr clean), if_pos spent,
    if_neg (not_not.mpr fresh), reads, ok_bind]
  dsimp only
  by_cases clean' : after.errNo = none
  · rw [if_neg (not_not.mpr clean')]
    by_cases nothing : taken.length = 0
    · rw [if_pos nothing]
      have ended : after.eof ≠ .no := by
        rcases filled.ends with ⟨error, -⟩ | ⟨-, coming⟩ | ⟨-, -, full⟩
        · exact absurd clean' error
        · rw [coming]
          decide
        · rw [List.nil_append, nothing] at full
          exact absurd full (by decide)
      refine ⟨none, { after with eof := .hit }, rfl,
        ⟨⟨mode, index, fun error => absurd clean' error⟩, ?_⟩, supplied, fun _ => Or.inr rfl⟩
      rw [← sameFails]
      exact iff_of_false (not_fails_of_ended clean' (by decide : EOFState.hit ≠ .no))
        (not_fails_of_ended clean' ended)
    · rw [if_neg nothing]
      have reading' : ({ after with buffer := taken, bufferIndex := 0 } : OpenFile).Reading :=
        ⟨mode, Nat.zero_le _, fun error => absurd clean' error⟩
      obtain ⟨byte, final, returns, keeps, less⟩ := reading'.forward (Nat.pos_of_ne_zero nothing)
      refine ⟨some byte, final, returns,
        ⟨keeps.reading, keeps.fails.trans ((fails_buffer_iff _ _).trans sameFails)⟩, ?_, nofun⟩
      refine Nat.le_trans less ?_
      show taken.length - 0 + after.unread.length ≤ _
      rw [supply]
      omega
  · rw [if_pos clean']
    refine ⟨none, after, rfl, ⟨⟨mode, index, fun _ => ?_⟩, sameFails⟩, supplied,
      fun _ => Or.inl clean'⟩
    rcases filled.ends with ⟨-, unended⟩ | ⟨clean'', -⟩ | ⟨clean'', -⟩
    · rw [unended]
      decide
    · exact absurd clean'' clean'
    · exact absurd clean'' clean'

/-- One call of `fileGetc`. -/
theorem fileGetc_gives (reading : file.Reading) :
    ∃ byte after, file.fileGetc = .ok (byte, after) ∧ file.Gives byte after := by
  by_cases clean : file.errNo = none
  · by_cases spent : file.buffer.length ≤ file.bufferIndex
    · by_cases fresh : file.eof = .no
      · exact fileGetc_fills reading clean spent fresh
      · refine ⟨none, { file with eof := .hit }, ?_,
          ⟨⟨reading.mode, reading.index, fun error => absurd clean error⟩, ?_⟩, Nat.le_refl _,
          fun _ => Or.inr rfl⟩
        · rw [fileGetc, assert_mode reading.mode, ok_bind, if_neg (not_not.mpr clean),
            if_pos spent, if_pos fresh]
        · exact iff_of_false (not_fails_of_ended clean (by decide : EOFState.hit ≠ .no))
            (not_fails_of_ended clean fresh)
    · obtain ⟨byte, after, returns, keeps, less⟩ := reading.forward (Nat.lt_of_not_le spent)
      refine ⟨some byte, after, ?_, keeps, less, nofun⟩
      rw [fileGetc, assert_mode reading.mode, ok_bind, if_neg (not_not.mpr clean), if_neg spent,
        returns]
  · refine ⟨none, file, ?_, ⟨reading, Iff.rfl⟩, Nat.le_refl _, fun _ => Or.inl clean⟩
    rw [fileGetc, assert_mode reading.mode, ok_bind, if_pos clean]

/-- Nothing more comes from the file, and it has recorded that. -/
def exhausted (file : OpenFile) : Bool :=
  file.mode == .read &&
    (file.errNo.isSome || (file.eof == .hit && decide (file.buffer.length ≤ file.bufferIndex)))

theorem fileGetc_exhausted (isExhausted : file.exhausted = true) :
    file.fileGetc = .ok (none, file) := by
  obtain ⟨mode, ends⟩ := Bool.and_eq_true_iff.mp isExhausted
  rw [fileGetc, assert_mode (beq_iff_eq.mp mode), ok_bind]
  by_cases clean : file.errNo = none
  · rw [clean, Option.isSome_none, Bool.false_or, Bool.and_eq_true, beq_iff_eq,
      decide_eq_true_iff] at ends
    rw [if_neg (not_not.mpr clean), if_pos ends.2, if_pos (by rw [ends.1]; decide), ← ends.1]
  · rw [if_pos clean]

/-- One call of `fileUngetc`. -/
theorem fileUngetc_gives (reading : file.Reading) (c : UInt8) :
    Meets OfText (fun result => file.Keeps result.2 ∧ result.2.supply ≤ file.supply + 1)
      (file.fileUngetc c) := by
  unfold fileUngetc
  rw [assert_mode reading.mode, ok_bind]
  split
  · exact ⟨⟨reading, Iff.rfl⟩, Nat.le_succ _⟩
  · refine (assert_meets (Or.inl rfl)).bind fun _ _ => ?_
    have length : (file.buffer.set (file.bufferIndex - 1) c).length = file.buffer.length :=
      List.length_set
    refine ⟨⟨⟨reading.mode, ?_, reading.unended⟩, fails_buffer_iff _ _⟩, ?_⟩
    · show file.bufferIndex - 1 ≤ (file.buffer.set (file.bufferIndex - 1) c).length
      rw [length]
      exact (Nat.sub_le _ _).trans reading.index
    · show (file.buffer.set (file.bufferIndex - 1) c).length - (file.bufferIndex - 1) +
        file.unread.length ≤ _
      rw [length, supply]
      omega

/-- `fileClearEof`, behind the end of the file: an end that was recorded stays one. -/
theorem fileClearEof_keeps (reading : file.Reading) (finished : file.Finished) :
    file.Keeps file.fileClearEof := by
  refine ⟨⟨reading.mode, reading.index, fun _ => (by decide : EOFState.coming ≠ .hit)⟩, ?_⟩
  by_cases clean : file.errNo = none
  · have ended : file.eof = .hit := finished.resolve_left (not_not.mpr clean)
    refine iff_of_false (not_fails_of_ended clean (by decide : EOFState.coming ≠ .no))
      (not_fails_of_ended clean ?_)
    rw [ended]
    decide
  · exact iff_of_true (.failed clean) (.failed clean)

end OpenFile

/-! ### Sources -/

/-- The `data` of a `Stream`: a file, or the bytes of a string. -/
inductive Source where
  | file (opened : OpenFile)
  | string (bytes : Bytes)

/-- The fields of a stream, over other data. -/
def Stream.over {Source Source' : Type} (stream : Stream Source) (source : Source') :
    Stream Source' :=
  ⟨source, stream.bufferedChar, stream.lastClusterCategory, stream.highSurrogate,
    stream.nextChar⟩

/-- `fileVtable` and `stringVtable`. A string has no `data.file`. -/
instance : StreamVtable Source where
  getChar stream :=
    match stream.source with
    | .file opened => do
      let (byte, opened) ← opened.fileGetc
      .ok (byte, { stream with source := .file opened })
    | .string bytes =>
      let (byte, next) := (stream.over bytes).getChar
      .ok (byte, next.over (.string next.source))
  ungetChar stream c :=
    match stream.source with
    | .file opened => do
      let (_, opened) ← opened.fileUngetc c
      .ok { stream with source := .file opened }
    | .string bytes => do
      let next ← (stream.over bytes).ungetChar c
      .ok (next.over (.string next.source))
  clearEof stream :=
    match stream.source with
    | .file opened => { stream with source := .file opened.fileClearEof }
    | .string _ => stream
  sfeof stream :=
    match stream.source with
    | .file opened => .ok opened.fileEof
    | .string _ => .error .undefined
  newStringStream bytes := .new (.string ⟨.string, [], bytes, .no⟩)
  supply
    | .file opened => opened.supply
    | .string bytes => bytes.remaining.length

section OnFile

variable {stream : Stream Source} {file : OpenFile} (onFile : stream.source = .file file)

include onFile

theorem getChar_file : StreamVtable.getChar stream =
    (file.fileGetc >>= fun (byte, opened) =>
      .ok (byte, { stream with source := .file opened })) := by
  obtain ⟨_, buffered, last, surrogate, next⟩ := stream
  cases onFile
  rfl

theorem ungetChar_file (c : UInt8) : StreamVtable.ungetChar stream c =
    (file.fileUngetc c >>= fun (_, opened) => .ok { stream with source := .file opened }) := by
  obtain ⟨_, buffered, last, surrogate, next⟩ := stream
  cases onFile
  rfl

theorem sfeof_file : StreamVtable.sfeof stream = .ok file.fileEof := by
  obtain ⟨_, buffered, last, surrogate, next⟩ := stream
  cases onFile
  rfl

end OnFile

/-! ### Files behind a file stream -/

namespace OpenFile

/-- A stream shows what is to come from a file. Of the bytes already read it may know more than
the buffer still holds. -/
structure ShownBy (file : OpenFile) (stream : Stream) : Prop where
  kind : stream.kind = .file
  readable : file.Readable stream.remaining
  consumed : (file.buffer.take file.bufferIndex).reverse <+: stream.consumed
  ended : stream.eof = .hit ↔ file.eof = .hit

section Shown

variable {stream : Stream} {file : OpenFile} {byte : UInt8}

/-- A byte of the buffer is read from both, and can be put back into both. -/
theorem ShownBy.step (shown : file.ShownBy stream)
    (inside : file.buffer[file.bufferIndex]? = some byte) :
    stream.getChar.1 = some byte ∧
      ({ file with bufferIndex := file.bufferIndex + 1 } : OpenFile).ShownBy stream.getChar.2 ∧
      stream.getChar.2.ungetChar byte = .ok stream := by
  obtain ⟨rest, starts, readable⟩ := shown.readable.step inside
  have reads := getChar_cons stream byte rest starts
  rw [reads]
  refine ⟨rfl, ⟨shown.kind, readable, ?_, shown.ended⟩, ?_⟩
  · obtain ⟨below, isByte⟩ := List.getElem?_eq_some_iff.mp inside
    show (file.buffer.take (file.bufferIndex + 1)).reverse <+: byte :: stream.consumed
    rw [List.take_add_one, inside, Option.toList_some, List.reverse_append]
    exact List.prefix_cons_inj _ |>.mpr shown.consumed
  · obtain ⟨⟨kind, consumed, remaining, eof⟩, buffered, last, surrogate, next⟩ := stream
    obtain rfl : kind = .file := shown.kind
    obtain rfl : remaining = byte :: rest := starts
    rfl

/-- One call of `getChar` on both. -/
theorem ShownBy.getChar (shown : file.ShownBy stream) :
    ∃ after, file.fileGetc = .ok (stream.getChar.1, after) ∧ after.ShownBy stream.getChar.2 ∧
      ∀ byte, stream.getChar.1 = some byte → ∃ back back',
        stream.getChar.2.ungetChar byte = .ok back' ∧
        after.fileUngetc byte = .ok (some byte, back) ∧ back.ShownBy back' := by
  rcases fileGetc_returns shown.readable with
    ⟨byte, filled, returns, readable, inside, ended, index⟩ |
    ⟨isEnd, after, returns, readable, hit, sameBuffer, sameIndex⟩
  · have shown' : filled.ShownBy stream := by
      refine ⟨shown.kind, readable, ?_, shown.ended.trans ended⟩
      rcases index with rfl | start
      · exact shown.consumed
      · rw [start]
        exact List.nil_prefix
    obtain ⟨isByte, shown'', back⟩ := shown'.step inside
    refine ⟨_, by rw [returns, isByte], shown'', fun byte' isByte' => ?_⟩
    obtain rfl : byte = byte' := Option.some.inj (isByte.symm.trans isByte')
    exact ⟨filled, stream, back, fileUngetc_inside readable.clean readable.mode inside, shown'⟩
  · rw [getChar_end stream shown.kind isEnd]
    refine ⟨after, returns, ⟨shown.kind, ?_, ?_, iff_of_true rfl hit⟩, fun _ absent => by
      contradiction⟩
    · show after.Readable stream.remaining
      rw [isEnd]
      exact readable
    · rw [sameBuffer, sameIndex]
      exact shown.consumed

theorem Readable.exists_shownBy {text : List UInt8} (readable : file.Readable text) :
    ∃ stream, file.ShownBy stream ∧ stream.remaining = text :=
  ⟨.new ⟨.file, (file.buffer.take file.bufferIndex).reverse, text, file.eof⟩,
    ⟨rfl, readable, List.prefix_rfl, Iff.rfl⟩, rfl⟩

end Shown

end OpenFile

/-- The file stream of the model and the stream on a buffered file that it shows. -/
theorem shownBy_tandem (stream : Stream Source) :
    Tandem fun shows (opened : Stream Source) => ∃ file : OpenFile,
      opened = { stream with source := .file file } ∧ file.ShownBy shows where
  getChar := by
    rintro shows _ ⟨file, rfl, shown⟩
    obtain ⟨after, reads, shown', puts⟩ := shown.getChar
    rw [vtable_getChar, getChar_file rfl, reads]
    refine ⟨rfl, ⟨after, rfl, shown'⟩, fun byte isByte => ?_⟩
    obtain ⟨back, back', puts', puts, shown''⟩ := puts byte isByte
    show Agree _ (shows.getChar.2.ungetChar byte) _
    rw [ungetChar_file rfl, puts', puts]
    exact ⟨back, rfl, shown''⟩

/-- `getuc` accepts exactly the shortest forms. On a file with at least one byte to come,
wherever its buffer ends, it takes some bytes and returns a code or an error code. It returns a
code exactly when the bytes it has taken are the shortest form of the code; and otherwise all of
them but the first are continuation bytes. -/
theorem getuc_accepts_shortest {opened : Stream Source} {file : OpenFile} {text : List UInt8}
    (onFile : opened.source = .file file) (readable : file.Readable text)
    (nonempty : text ≠ []) :
    ∃ value file' taken rest, getuc opened = .ok (value, { opened with source := .file file' }) ∧
      file'.Readable rest ∧ text = taken ++ rest ∧ taken ≠ [] ∧
      (∀ code : Nat, value = code ↔ code ≤ 0x10FFFF ∧ shortestForm code <+: text) ∧
      (∀ code : Nat, value = code → taken = shortestForm code) ∧
      (value < 0 → IsError value ∧ ∀ byte ∈ taken.tail, Continuation byte) := by
  obtain ⟨lead, rest, starts⟩ := List.exists_cons_of_ne_nil nonempty
  obtain ⟨stream, shown, isText⟩ := readable.exists_shownBy
  obtain ⟨value, tail, after, answer, behind, tails, result⟩ :=
    getuc_reads stream shown.kind lead rest (isText.trans starts)
  have agree := (shownBy_tandem opened).getuc ⟨file, rfl, shown⟩
  rw [answer, ← onFile] at agree
  obtain ⟨⟨_, _⟩, reads, rfl, file', rfl, shown'⟩ := agree.exists_ok
  have split : text = lead :: tail ++ after.remaining := isText.symm.trans behind.remaining
  -- A shortest form in front of the file is what the reader returns.
  have accepts : ∀ code : Nat, code ≤ 0x10FFFF → shortestForm code <+: text →
      value = code ∧ lead :: tail = shortestForm code := by
    rintro code bound ⟨rest', isForm⟩
    have forms := getuc_shortestForm code bound stream rest' (isText.trans isForm.symm)
    rw [answer] at forms
    obtain ⟨isCode, rfl⟩ := Prod.mk.inj (Except.ok.inj forms)
    exact ⟨isCode, List.append_cancel_right (split.symm.trans isForm.symm)⟩
  have returned : ∀ code : Nat, value = code →
      code ≤ 0x10FFFF ∧ lead :: tail = shortestForm code := by
    rintro code rfl
    rcases result with isError | ⟨code', same, bound, form⟩
    · have := isError.neg.1
      omega
    · obtain rfl : code = code' := by omega
      exact ⟨bound, form⟩
  refine ⟨value, file', lead :: tail, _, reads, shown'.readable, split, List.cons_ne_nil _ _,
    fun code => ⟨fun isCode => ?_, fun form => (accepts code form.1 form.2).1⟩,
    fun code isCode => (returned code isCode).2, fun negative => ⟨?_, tails⟩⟩
  · obtain ⟨bound, form⟩ := returned code isCode
    exact ⟨bound, _, by rw [← form]; exact split.symm⟩
  · rcases result with isError | ⟨code, rfl, -, -⟩
    · exact isError
    · omega

/-- A file whose buffer ends inside a character, on a system that delivers one byte a call. -/
def refilling : OpenFile where
  system := ⟨fun _ => .bytes 1, 0, fun _ _ => nofun⟩
  calls := 2
  disk := [0x61, 0xC3, 0xA9, 0x62]
  position := 2
  errNo := none
  mode := .read
  buffer := [0x61, 0xC3]
  bufferIndex := 1
  eof := .no

/-- Two bytes of a character on both sides of the end of the buffer. -/
theorem getuc_accepts_shortest_refill :
    ∃ value file' taken rest, getuc (Stream.new (Source.file refilling)) =
        .ok (value, { Stream.new (Source.file refilling) with source := .file file' }) ∧
      file'.Readable rest ∧ [0xC3, 0xA9, 0x62] = taken ++ rest ∧ taken ≠ [] ∧
      (∀ code : Nat, value = code ↔
        code ≤ 0x10FFFF ∧ shortestForm code <+: [0xC3, 0xA9, 0x62]) ∧
      (∀ code : Nat, value = code → taken = shortestForm code) ∧
      (value < 0 → IsError value ∧ ∀ byte ∈ taken.tail, Continuation byte) :=
  getuc_accepts_shortest rfl
    ⟨fun _ => Or.inr ⟨1, rfl⟩, rfl, rfl, by decide, rfl, fun seen => absurd rfl seen⟩ (by decide)

/-! ### What a reader leaves of a source -/

namespace Source

/-- A call of `getChar` has returned nothing. -/
def Finished : Source → Prop
  | .file opened => opened.Finished
  | .string bytes => bytes.remaining = []

/-- A source that can be read, and what a reader leaves of it. -/
inductive Keeps : Source → Source → Prop where
  | file {opened after : OpenFile} (keeps : opened.Keeps after) : Keeps (.file opened) (.file after)
  | string (bytes after : Bytes) : Keeps (.string bytes) (.string after)

/-- A call of `read` on the file has failed or will; strings do not fail. -/
def Fails : Source → Prop
  | .file opened => opened.Fails
  | .string _ => False

variable {source after : Source}

theorem Keeps.fails (keeps : source.Keeps after) : after.Fails ↔ source.Fails := by
  cases keeps with
  | file keeps => exact keeps.fails
  | string => exact Iff.rfl

/-- The source is a file that can be read. -/
def FromFile (source : Source) : Prop := ∃ opened : OpenFile, source = .file opened ∧ opened.Reading

theorem FromFile.reading (fromFile : source.FromFile) : source.Keeps source := by
  obtain ⟨opened, rfl, reading⟩ := fromFile
  exact .file ⟨reading, Iff.rfl⟩

theorem FromFile.keeps (fromFile : source.FromFile) (keeps : source.Keeps after) :
    after.FromFile := by
  obtain ⟨opened, rfl, -⟩ := fromFile
  cases keeps with
  | file keeps => exact ⟨_, rfl, keeps.reading⟩

/-- The source is a file from which nothing more comes, and it has recorded that. -/
def exhausted : Source → Bool
  | .file opened => opened.exhausted
  | .string _ => false

end Source

/-- Files behind system calls and strings keep what the readers need. -/
theorem source_lawful : Lawful Source.Keeps Source.Finished where
  trans := by
    intro first second third keeps keeps'
    cases keeps with
    | file keeps =>
      cases keeps' with
      | file keeps' => exact .file ⟨keeps'.reading, keeps'.fails.trans keeps.fails⟩
    | string =>
      cases keeps'
      exact .string _ _
  again := by
    intro first second keeps
    cases keeps with
    | file keeps => exact .file ⟨keeps.reading, Iff.rfl⟩
    | string => exact .string _ _
  getChar := by
    rintro ⟨source, buffered, last, surrogate, next⟩ reading
    cases reading with
    | @file opened _ keeps =>
      obtain ⟨byte, after, returns, gives⟩ := OpenFile.fileGetc_gives keeps.reading
      show Meets OfText _ (opened.fileGetc >>= _)
      rw [returns]
      exact ⟨.file after, rfl, .file gives.1, gives.2⟩
    | string bytes =>
      obtain ⟨source, isNext, -, less, finished⟩ := @Lawful.getChar _ _ _ _ bytes_lawful
        ⟨bytes, buffered, last, surrogate, next⟩ trivial
      exact ⟨.string source, congrArg (fun next : Stream => next.over (Source.string
        next.source)) isNext, .string _ _, less, finished⟩
  ungetChar := by
    rintro ⟨source, buffered, last, surrogate, next⟩ c reading
    cases reading with
    | @file opened _ keeps =>
      refine (OpenFile.fileUngetc_gives keeps.reading c).bind fun result gives => ?_
      exact ⟨.file result.2, rfl, .file gives.1, gives.2⟩
    | string bytes =>
      refine (@Lawful.ungetChar _ _ _ _ bytes_lawful ⟨bytes, buffered, last, surrogate, next⟩ c
        trivial).bind ?_
      rintro _ ⟨source, rfl, -, more⟩
      exact ⟨.string source, rfl, .string _ _, more⟩
  clearEof := by
    rintro ⟨source, buffered, last, surrogate, next⟩ reading finished
    cases reading with
    | @file opened _ keeps =>
      exact ⟨.file opened.fileClearEof, rfl, .file (OpenFile.fileClearEof_keeps keeps.reading
        finished), rfl⟩
    | string bytes => exact ⟨.string bytes, rfl, .string _ _, rfl⟩

/-! ### The end of a stream -/

section Ends

variable {stream : Stream Source}

/-- The end of a file that fails is never recorded. -/
theorem sfeof_of_fails (fromFile : stream.source.FromFile) (fails : stream.source.Fails) :
    StreamVtable.sfeof stream = .ok false := by
  obtain ⟨opened, isFile, reading⟩ := fromFile
  rw [isFile] at fails
  rw [sfeof_file isFile]
  have unended : opened.eof ≠ .hit := by
    rcases fails with error | ⟨clean, fresh, -, -⟩
    · exact reading.unended error
    · rw [fresh]
      decide
  exact congrArg Except.ok (beq_eq_false_iff_ne.mpr unended)

/-- At the end of any other file it is. -/
theorem sfeof_of_finished (fromFile : stream.source.FromFile) (succeeds : ¬ stream.source.Fails)
    (finished : stream.source.Finished) : StreamVtable.sfeof stream = .ok true := by
  obtain ⟨opened, isFile, -⟩ := fromFile
  rw [isFile] at succeeds finished
  rw [sfeof_file isFile]
  have ended : opened.eof = .hit := finished.resolve_left fun error => succeeds (.failed error)
  exact congrArg Except.ok (beq_iff_eq.mpr ended)

variable {State : Type} {options : Options} {locale : Locale}

theorem readNextChar_exhausted (singleByte : options.utf8Mode = false)
    (isExhausted : stream.source.exhausted = true) :
    readNextChar options locale stream = .ok (none, stream) := by
  obtain ⟨⟨opened⟩ | _, buffered, last, surrogate, next⟩ := stream
  · rw [readNextChar, singleByte, if_neg Bool.false_ne_true, getChar_file rfl,
      OpenFile.fileGetc_exhausted isExhausted]
    rfl
  · exact absurd isExhausted Bool.false_ne_true

theorem forPiece_exhausted (singleByte : options.utf8Mode = false)
    (isExhausted : stream.source.exhausted = true)
    (body : ReadChar → State → Except Failure (Bool × State)) (state : State) :
    forPiece options locale body stream.rounds stream state = .ok (.endOfFile, stream, state) := by
  rw [Stream.rounds, forPiece, nextOfPiece, readNextChar_exhausted singleByte isExhausted]
  rfl

end Ends

end Dwdiff
