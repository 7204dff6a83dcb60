/-
This file models `file.c` with both its modes and the system calls it makes. Each
call of `read` and `write` on a descriptor gets an answer: some of the bytes, none,
an interruption or an error. The answers are left open; they are only known to end
their interruptions at some point, without which no loop around a call would end.

What was written through the buffer, in pieces of any size, is read back through
it byte by byte, and the end of the file is recorded exactly when it is returned.
-/

import Dwdiff.Decoding

namespace Dwdiff

open Outcome

variable {file : OpenFile}

/-- `FILE_BUFFER_SIZE`. -/
def fileBufferSize : Nat := 4096

/-! ### System calls -/

/-- What the system answers to a call: it takes or delivers some bytes, `0`, `EINTR`, or another
error. -/
inductive Answer where
  | bytes (count : Nat)
  | nothing
  | interrupted
  | failed (errno : Nat)
  deriving DecidableEq, Repr

/-- The answers to all calls on a descriptor, of which finitely many are interruptions. -/
structure System where
  answer : Nat → Answer
  patience : Nat
  calm : ∀ call, patience ≤ call → answer call ≠ .interrupted

/-- A system that answers every call with some bytes, or interrupts it. -/
def System.Obliging (system : System) : Prop :=
  ∀ call, system.answer call = .interrupted ∨ ∃ count, system.answer call = .bytes count

/-- How many bytes one call of `read` delivers, of those available and asked for: at least one,
if there is one. The first argument is what the system would choose. -/
def delivered (choice available asked : Nat) : Nat := min (max 1 choice) (min available asked)

inductive FileMode where
  | read
  | write
  deriving DecidableEq, Repr

/-- A `File`, and its descriptor: the answers it gets, the number of calls made, the bytes of the
file and the offset in it. The buffer is kept up to `bufferFill`. -/
structure OpenFile where
  system : System
  calls : Nat
  disk : List UInt8
  position : Nat
  errNo : Option Nat
  mode : FileMode
  buffer : List UInt8
  bufferIndex : Nat
  eof : EOFState

namespace OpenFile

/-- `fileWrapFD`, on a descriptor at the start of a file. -/
def fileWrapFD (system : System) (disk : List UInt8) (mode : FileMode) : OpenFile where
  system := system
  calls := 0
  disk := disk
  position := 0
  errNo := none
  mode := mode
  buffer := []
  bufferIndex := 0
  eof := .no

section Operations

variable (file : OpenFile)

/-- The bytes behind the offset. -/
def unread : List UInt8 := file.disk.drop file.position

/-! ### Reading -/

/-- The loop of `fileGetc` around `read`: the bytes read into the buffer. -/
def readLoop : (fuel : Nat) → List UInt8 → OpenFile → Except Failure (List UInt8 × OpenFile)
  | 0, _, _ => .error .diverges
  | fuel + 1, buffer, file =>
    let called := { file with calls := file.calls + 1 }
    match file.system.answer file.calls with
    | .nothing => .ok (buffer, { called with eof := .coming })
    | .interrupted => readLoop fuel buffer called
    | .failed errno => .ok (buffer, { called with errNo := some errno })
    | .bytes count =>
      let retval := delivered count file.unread.length (fileBufferSize - buffer.length)
      if retval = 0 then .ok (buffer, { called with eof := .coming })
      else
        let buffer := buffer ++ file.unread.take retval
        let called := { called with position := called.position + retval }
        if buffer.length = fileBufferSize then .ok (buffer, called)
        else readLoop fuel buffer called

/-- The byte at the index, which is moved behind it. -/
def nextByte : Except Failure (Option UInt8 × OpenFile) :=
  match file.buffer[file.bufferIndex]? with
  | some byte => .ok (some byte, { file with bufferIndex := file.bufferIndex + 1 })
  | none => .error .undefined

def fileGetc : Except Failure (Option UInt8 × OpenFile) := do
  assert (file.mode == .read) "file->mode == FILE_READ"
  if file.errNo ≠ none then .ok (none, file)
  else if file.bufferIndex ≥ file.buffer.length then
    if file.eof ≠ .no then .ok (none, { file with eof := .hit })
    else do
      let (buffer, file) ← readLoop (file.system.patience + fileBufferSize + 1) [] file
      if file.errNo ≠ none then .ok (none, file)
      else if buffer.length = 0 then .ok (none, { file with eof := .hit })
      else nextByte { file with buffer := buffer, bufferIndex := 0 }
  else file.nextByte

/-- `fileUngetc`. The byte is returned as it was given, not as a plain `char`. -/
def fileUngetc (c : UInt8) : Except Failure (Option UInt8 × OpenFile) := do
  assert (file.mode == .read) "file->mode == FILE_READ"
  if file.errNo ≠ none then .ok (none, file)
  else do
    assert (decide (file.bufferIndex > 0)) "file->bufferIndex > 0"
    .ok (some c, { file with
      bufferIndex := file.bufferIndex - 1
      buffer := file.buffer.set (file.bufferIndex - 1) c })

def fileEof : Bool := file.eof == .hit

def fileClearEof : OpenFile := { file with eof := .coming }

/-! ### Writing -/

/-- The bytes of the file from the offset on are replaced, and the offset is moved. -/
def put (bytes : List UInt8) : OpenFile :=
  { file with
    disk := file.disk.take file.position ++ bytes ++ file.disk.drop (file.position + bytes.length)
    position := file.position + bytes.length }

/-- The loop of `flushBuffer` around `write`: what it returns, and the file. -/
def writeLoop : (fuel bytesWritten : Nat) → OpenFile → Except Failure (Int × OpenFile)
  | 0, _, _ => .error .diverges
  | fuel + 1, bytesWritten, file =>
    let called := { file with calls := file.calls + 1 }
    match file.system.answer file.calls with
    | .nothing => .error (.assertion "PANIC")
    | .interrupted => writeLoop fuel bytesWritten called
    | .failed errno => .ok (-1, { called with errNo := some errno })
    | .bytes count =>
      let asked := file.buffer.length - bytesWritten
      let retval := delivered count asked asked
      let called := called.put ((file.buffer.drop bytesWritten).take retval)
      if bytesWritten + retval = file.buffer.length then
        .ok (file.buffer.length, { called with buffer := [] })
      else writeLoop fuel (bytesWritten + retval) called

def flushBuffer : Except Failure (Int × OpenFile) :=
  if file.mode = .read then .ok (0, file)
  else if file.errNo ≠ none then .ok (-1, file)
  else if file.buffer.length = 0 then .ok (0, file)
  else writeLoop (file.system.patience + file.buffer.length + 1) 0 file

def fileFlush : Except Failure (Int × OpenFile) := do
  let (retval, file) ← file.flushBuffer
  .ok (if retval = -1 then -1 else 0, file)

def filePutc (c : UInt8) : Except Failure (Int × OpenFile) := do
  assert (file.mode == .write) "file->mode == FILE_WRITE"
  if file.errNo ≠ none then .ok (-1, file)
  else do
    let (flushed, file) ←
      if file.buffer.length ≥ fileBufferSize then file.flushBuffer else .ok (0, file)
    if flushed = -1 then .ok (-1, file)
    else .ok (0, { file with buffer := file.buffer ++ [c] })

/-- The loop of `fileWrite`. Its first round may find the buffer full. -/
def copyLoop : (fuel : Nat) → List UInt8 → OpenFile → Except Failure (Int × OpenFile)
  | 0, _, _ => .error .diverges
  | fuel + 1, bytes, file => do
    let minLength := min (fileBufferSize - file.buffer.length) bytes.length
    let file := { file with buffer := file.buffer ++ bytes.take minLength }
    if bytes.length - minLength = 0 then .ok (0, file)
    else do
      let (flushed, file) ← file.flushBuffer
      if flushed = -1 then .ok (-1, file) else copyLoop fuel (bytes.drop minLength) file

def fileWrite (bytes : List UInt8) : Except Failure (Int × OpenFile) := do
  assert (file.mode == .write) "file->mode == FILE_WRITE"
  if file.errNo ≠ none then .ok (-1, file) else copyLoop (bytes.length + 2) bytes file

/-- `fileRewind`, with a successful `lseek`. -/
def fileRewind (mode : FileMode) : Except Failure (Int × OpenFile) := do
  assert (mode == .read || (file.mode == .write && mode == .write))
    "mode == FILE_READ || (file->mode == FILE_WRITE && mode == FILE_WRITE)"
  let (flushed, file) ← file.flushBuffer
  if flushed ≠ 0 then .ok (-1, file)
  else .ok (0, { file with position := 0, eof := .no, mode := mode })

end Operations

theorem assert_mode {mode : FileMode} (isMode : file.mode = mode) (text : String) :
    assert (file.mode == mode) text = .ok () :=
  assert_true (beq_iff_eq.mpr isMode)

/-! ### The loop around `read` -/

/-- What a loop around `read` leaves of a file: the bytes it took, and why it ended. -/
structure Filled (file : OpenFile) (buffer taken : List UInt8) (after : OpenFile) : Prop where
  system : after.system = file.system
  mode : after.mode = file.mode
  sameBuffer : after.buffer = file.buffer
  sameIndex : after.bufferIndex = file.bufferIndex
  unread : file.unread = taken ++ after.unread
  ends : (after.errNo ≠ none ∧ after.eof = .no) ∨ (after.errNo = none ∧ after.eof = .coming) ∨
    (after.errNo = none ∧ after.eof = .no ∧ (buffer ++ taken).length = fileBufferSize)
  obliges : file.system.Obliging →
    after.errNo = none ∧ (after.eof ≠ .no → after.unread = [])

theorem unread_take (file : OpenFile) (count : Nat) :
    file.unread = file.unread.take count ++
      ({ file with position := file.position + count } : OpenFile).unread := by
  rw [unread, unread, ← List.drop_drop, List.take_append_drop]

/-- The loop ends: an interruption uses up some patience, and a delivery fills the buffer. -/
theorem readLoop_fills {fuel : Nat} {buffer : List UInt8} (clean : file.errNo = none)
    (fresh : file.eof = .no) (room : buffer.length < fileBufferSize)
    (enough : (file.system.patience - file.calls) + (fileBufferSize - buffer.length) < fuel) :
    ∃ taken after, readLoop fuel buffer file = .ok (buffer ++ taken, after) ∧
      Filled file buffer taken after := by
  induction fuel generalizing buffer file with
  | zero => exact absurd enough (Nat.not_lt_zero _)
  | succ fuel inductionHypothesis =>
    unfold readLoop
    dsimp only
    cases answers : file.system.answer file.calls with
    | nothing =>
      refine ⟨[], { file with calls := file.calls + 1, eof := .coming }, by rw [List.append_nil],
        rfl, rfl, rfl, rfl, rfl, Or.inr (Or.inl ⟨clean, rfl⟩), fun obliging => ?_⟩
      rcases obliging file.calls with interrupts | ⟨count, delivers⟩
      · exact absurd (answers.symm.trans interrupts) (by simp)
      · exact absurd (answers.symm.trans delivers) (by simp)
    | failed errno =>
      refine ⟨[], { file with calls := file.calls + 1, errNo := some errno },
        by rw [List.append_nil], rfl, rfl, rfl, rfl, rfl,
        Or.inl ⟨Option.some_ne_none errno, fresh⟩, fun obliging => ?_⟩
      rcases obliging file.calls with interrupts | ⟨count, delivers⟩
      · exact absurd (answers.symm.trans interrupts) (by simp)
      · exact absurd (answers.symm.trans delivers) (by simp)
    | interrupted =>
      have early : file.calls < file.system.patience := by
        by_contra late
        exact file.system.calm file.calls (Nat.le_of_not_lt late) answers
      obtain ⟨taken, after, reads, filled⟩ := @inductionHypothesis
        { file with calls := file.calls + 1 } buffer clean fresh room (by dsimp only; omega)
      exact ⟨taken, after, reads, filled.system, filled.mode, filled.sameBuffer, filled.sameIndex,
        filled.unread, filled.ends, filled.obliges⟩
    | bytes count =>
      dsimp only
      generalize isSize : delivered count file.unread.length (fileBufferSize - buffer.length) = size
      unfold delivered at isSize
      by_cases nothing : size = 0
      · rw [if_pos nothing]
        refine ⟨[], { file with calls := file.calls + 1, eof := .coming },
          by rw [List.append_nil], rfl, rfl, rfl, rfl, rfl, Or.inr (Or.inl ⟨clean, rfl⟩),
          fun _ => ⟨clean, fun _ => ?_⟩⟩
        exact List.length_eq_zero_iff.mp (show file.unread.length = 0 by omega)
      have length : (buffer ++ file.unread.take size).length = buffer.length + size := by
        rw [List.length_append, List.length_take]
        omega
      rw [if_neg nothing]
      by_cases full : (buffer ++ file.unread.take size).length = fileBufferSize
      · rw [if_pos full]
        exact ⟨file.unread.take size, _, rfl, rfl, rfl, rfl, rfl, unread_take file size,
          Or.inr (Or.inr ⟨clean, fresh, full⟩), fun _ => ⟨clean, fun seen => absurd fresh seen⟩⟩
      · rw [if_neg full]
        obtain ⟨taken, after, reads, filled⟩ := @inductionHypothesis
          { file with calls := file.calls + 1, position := file.position + size }
          (buffer ++ file.unread.take size) clean fresh (by omega) (by dsimp only; omega)
        refine ⟨file.unread.take size ++ taken, after, by rw [reads, List.append_assoc],
          filled.system, filled.mode, filled.sameBuffer, filled.sameIndex, ?_, ?_,
          filled.obliges⟩
        · rw [List.append_assoc, ← filled.unread]
          exact unread_take file size
        · rw [← List.append_assoc]
          exact filled.ends

/-- The loop as `fileGetc` runs it. -/
theorem readLoop_refills (clean : file.errNo = none) (fresh : file.eof = .no) :
    ∃ taken after, readLoop (file.system.patience + fileBufferSize + 1) [] file =
      .ok (taken, after) ∧ Filled file [] taken after := by
  refine readLoop_fills clean fresh (by decide) ?_
  rw [List.length_nil]
  omega

/-! ### Bytes one after another -/

/-- A file that will deliver a text to its reader. -/
structure Readable (text : List UInt8) (file : OpenFile) : Prop where
  obliging : file.system.Obliging
  clean : file.errNo = none
  mode : file.mode = .read
  index : file.bufferIndex ≤ file.buffer.length
  upcoming : file.buffer.drop file.bufferIndex ++ file.unread = text
  drained : file.eof ≠ .no → file.unread = []

section Reading

variable {file : OpenFile} {text : List UInt8} {byte : UInt8}

/-- A byte that is in the buffer. -/
theorem fileGetc_inside (clean : file.errNo = none) (mode : file.mode = .read)
    (inside : file.buffer[file.bufferIndex]? = some byte) :
    file.fileGetc = .ok (some byte, { file with bufferIndex := file.bufferIndex + 1 }) := by
  have below : file.bufferIndex < file.buffer.length := (List.getElem?_eq_some_iff.mp inside).1
  unfold fileGetc
  rw [assert_mode mode, ok_bind, if_neg (by simp [clean]), if_neg (by omega), nextByte, inside]

/-- It can be put back, and then the file is as it was before it was read. -/
theorem fileUngetc_inside (clean : file.errNo = none) (mode : file.mode = .read)
    (inside : file.buffer[file.bufferIndex]? = some byte) :
    ({ file with bufferIndex := file.bufferIndex + 1 } : OpenFile).fileUngetc byte =
      .ok (some byte, file) := by
  obtain ⟨below, isByte⟩ := List.getElem?_eq_some_iff.mp inside
  have same : file.buffer.set file.bufferIndex byte = file.buffer := by
    rw [← isByte]
    exact List.set_getElem_self below
  unfold fileUngetc
  dsimp only
  rw [assert_true (beq_iff_eq.mpr mode), ok_bind, if_neg (by simp [clean]), assert_true (by simp),
    ok_bind, Nat.add_sub_cancel, same]

theorem Readable.step (readable : file.Readable text)
    (inside : file.buffer[file.bufferIndex]? = some byte) :
    ∃ rest, text = byte :: rest ∧
      ({ file with bufferIndex := file.bufferIndex + 1 } : OpenFile).Readable rest := by
  obtain ⟨below, isByte⟩ := List.getElem?_eq_some_iff.mp inside
  refine ⟨file.buffer.drop (file.bufferIndex + 1) ++ file.unread, ?_, readable.obliging,
    readable.clean, readable.mode, below, rfl, readable.drained⟩
  rw [← readable.upcoming, List.drop_eq_getElem_cons below, isByte]
  rfl

/-- A byte is returned from the buffer, which was filled again if it was spent. -/
structure Returned (text : List UInt8) (file : OpenFile) (byte : UInt8) (filled : OpenFile) :
    Prop where
  readable : filled.Readable text
  inside : filled.buffer[filled.bufferIndex]? = some byte
  ended : file.eof = .hit ↔ filled.eof = .hit
  index : filled = file ∨ filled.bufferIndex = 0

/-- One call of `fileGetc`: it returns the next byte, or records the end and says so. -/
theorem fileGetc_returns (readable : file.Readable text) :
    (∃ byte filled, file.fileGetc =
        .ok (some byte, { filled with bufferIndex := filled.bufferIndex + 1 }) ∧
      Returned text file byte filled) ∨
    (text = [] ∧ ∃ after, file.fileGetc = .ok (none, after) ∧ after.Readable [] ∧
      after.eof = .hit ∧ after.buffer = file.buffer ∧ after.bufferIndex = file.bufferIndex) := by
  unfold fileGetc
  rw [assert_mode readable.mode, ok_bind, if_neg (by simp [readable.clean])]
  by_cases spent : file.bufferIndex ≥ file.buffer.length
  · have upcoming := readable.upcoming
    rw [List.drop_eq_nil_of_le spent, List.nil_append] at upcoming
    rw [if_pos spent]
    by_cases seen : file.eof = .no
    · rw [if_neg (by simp [seen])]
      obtain ⟨taken, after, reads, filled⟩ := readLoop_refills readable.clean seen
      obtain ⟨clean, drained⟩ := filled.obliges readable.obliging
      rw [reads, ok_bind]
      dsimp only
      rw [if_neg (by simp [clean])]
      by_cases nothing : taken = []
      · have empty : after.unread = [] := by
          refine drained fun fresh => ?_
          rcases filled.ends with ⟨fails, -⟩ | ⟨-, coming⟩ | ⟨-, -, full⟩
          · exact fails clean
          · exact absurd (fresh.symm.trans coming) (by decide)
          · rw [nothing] at full
            exact absurd full (by decide)
        have isEmpty : text = [] := by rw [← upcoming, filled.unread, nothing, empty]; rfl
        rw [if_pos (by simp [nothing])]
        refine Or.inr ⟨isEmpty, _, rfl, ⟨?_, clean, ?_, ?_, ?_, fun _ => empty⟩, rfl,
          filled.sameBuffer, filled.sameIndex⟩
        · rw [filled.system]
          exact readable.obliging
        · exact filled.mode.trans readable.mode
        · show after.bufferIndex ≤ after.buffer.length
          rw [filled.sameBuffer, filled.sameIndex]
          exact readable.index
        · show after.buffer.drop after.bufferIndex ++ after.unread = []
          rw [filled.sameBuffer, filled.sameIndex, List.drop_eq_nil_of_le spent, empty]
          rfl
      · have positive : 0 < taken.length := List.length_pos_iff.mpr nothing
        rw [if_neg (by omega)]
        have readable' : ({ after with buffer := taken, bufferIndex := 0 } : OpenFile).Readable
            text := by
          refine ⟨?_, clean, filled.mode.trans readable.mode, Nat.zero_le _, ?_, drained⟩
          · rw [filled.system]
            exact readable.obliging
          · rw [← upcoming, filled.unread]
            rfl
        refine Or.inl ⟨_, _, by rw [nextByte, List.getElem?_eq_getElem positive], readable',
          List.getElem?_eq_getElem positive, iff_of_false (by rw [seen]; decide) ?_, Or.inr rfl⟩
        show after.eof ≠ .hit
        rcases filled.ends with ⟨-, eof⟩ | ⟨-, eof⟩ | ⟨-, eof, -⟩ <;> rw [eof] <;> decide
    · have empty := readable.drained seen
      rw [if_pos seen]
      refine Or.inr ⟨by rw [← upcoming, empty], _, rfl, ⟨readable.obliging, readable.clean,
        readable.mode, readable.index, ?_, fun _ => empty⟩, rfl, rfl, rfl⟩
      show file.buffer.drop file.bufferIndex ++ file.unread = []
      rw [List.drop_eq_nil_of_le spent, empty]
      rfl
  · have inside := List.getElem?_eq_getElem (Nat.lt_of_not_le spent)
    rw [if_neg spent]
    exact Or.inl ⟨_, file, by rw [nextByte, inside], readable, inside, Iff.rfl, Or.inl rfl⟩

end Reading

/-! ### Pieces one after another -/

/-- A file to which a text was written: its first part is on the disk, the rest in the buffer. -/
structure Writable (text : List UInt8) (file : OpenFile) : Prop where
  obliging : file.system.Obliging
  clean : file.errNo = none
  mode : file.mode = .write
  written : file.disk ++ file.buffer = text
  position : file.position = file.disk.length
  room : file.buffer.length ≤ fileBufferSize
  index : file.bufferIndex = 0

section Writing

variable {file : OpenFile} {text : List UInt8}

theorem put_atEnd (atEnd : file.position = file.disk.length) (bytes : List UInt8) :
    file.put bytes = { file with
      disk := file.disk ++ bytes, position := (file.disk ++ bytes).length } := by
  rw [put, atEnd, List.take_length, List.drop_eq_nil_of_le (Nat.le_add_right _ _),
    List.append_nil, List.length_append]

/-- A file in the middle of the loop around `write`, where `bytesWritten` bytes of the buffer are
on the disk. -/
structure Flushing (text : List UInt8) (bytesWritten : Nat) (file : OpenFile) : Prop where
  obliging : file.system.Obliging
  clean : file.errNo = none
  mode : file.mode = .write
  written : file.disk ++ file.buffer.drop bytesWritten = text
  position : file.position = file.disk.length
  index : file.bufferIndex = 0

/-- The loop around `write` puts out what is left of the buffer. -/
theorem writeLoop_flushes {fuel bytesWritten : Nat} (flushing : file.Flushing text bytesWritten)
    (more : bytesWritten < file.buffer.length)
    (enough : (file.system.patience - file.calls) + (file.buffer.length - bytesWritten) < fuel) :
    ∃ after, writeLoop fuel bytesWritten file = .ok (file.buffer.length, after) ∧
      after.Writable text ∧ after.buffer = [] := by
  induction fuel generalizing bytesWritten file with
  | zero => exact absurd enough (Nat.not_lt_zero _)
  | succ fuel inductionHypothesis =>
    obtain ⟨obliging, clean, mode, written, position, index⟩ := flushing
    unfold writeLoop
    dsimp only
    rcases obliging file.calls with interrupts | ⟨count, accepts⟩
    · have early : file.calls < file.system.patience := by
        by_contra late
        exact file.system.calm file.calls (Nat.le_of_not_lt late) interrupts
      rw [interrupts]
      exact @inductionHypothesis { file with calls := file.calls + 1 } bytesWritten
        ⟨obliging, clean, mode, written, position, index⟩ more (by dsimp only; omega)
    · rw [accepts]
      dsimp only
      generalize isSize : delivered count (file.buffer.length - bytesWritten)
        (file.buffer.length - bytesWritten) = size
      unfold delivered at isSize
      rw [put_atEnd (by exact position)]
      have step : file.disk ++ (file.buffer.drop bytesWritten).take size ++
          file.buffer.drop (bytesWritten + size) = text := by
        rw [← List.drop_drop, List.append_assoc, List.take_append_drop, written]
      by_cases last : bytesWritten + size = file.buffer.length
      · rw [if_pos last]
        rw [last, List.drop_length] at step
        exact ⟨_, rfl, ⟨obliging, clean, mode, step, rfl, Nat.zero_le _, index⟩, rfl⟩
      · rw [if_neg last]
        exact @inductionHypothesis { file with
            calls := file.calls + 1
            disk := file.disk ++ (file.buffer.drop bytesWritten).take size
            position := (file.disk ++ (file.buffer.drop bytesWritten).take size).length }
          (bytesWritten + size) ⟨obliging, clean, mode, step, rfl, index⟩ (by dsimp only; omega)
          (by dsimp only; omega)

variable (writable : file.Writable text)

include writable

/-- After a flush all of the text is on the disk. -/
theorem flushBuffer_flushes :
    ∃ retval after, file.flushBuffer = .ok (retval, after) ∧ retval ≠ -1 ∧
      (file.buffer = [] → retval = 0) ∧ after.Writable text ∧ after.buffer = [] := by
  unfold flushBuffer
  rw [if_neg (by simp [writable.mode]), if_neg (by simp [writable.clean])]
  by_cases empty : file.buffer.length = 0
  · rw [if_pos empty]
    exact ⟨0, file, rfl, by decide, fun _ => rfl, writable, List.length_eq_zero_iff.mp empty⟩
  · rw [if_neg empty]
    have flushing : file.Flushing text 0 := ⟨writable.obliging, writable.clean, writable.mode,
      writable.written, writable.position, writable.index⟩
    obtain ⟨after, writes, writable', isEmpty⟩ := @writeLoop_flushes file text
      (file.system.patience + file.buffer.length + 1) 0 flushing (by omega) (by omega)
    refine ⟨_, after, writes, by omega, fun none => ?_, writable', isEmpty⟩
    exact absurd (by rw [none]; rfl) empty

theorem fileFlush_flushes :
    ∃ after, file.fileFlush = .ok (0, after) ∧ after.Writable text ∧ after.buffer = [] := by
  obtain ⟨retval, after, flushes, succeeds, -, writable', isEmpty⟩ := flushBuffer_flushes writable
  refine ⟨after, ?_, writable', isEmpty⟩
  rw [fileFlush, flushes, ok_bind]
  dsimp only
  rw [if_neg succeeds]

theorem Writable.append {bytes : List UInt8}
    (fits : (file.buffer ++ bytes).length ≤ fileBufferSize) :
    ({ file with buffer := file.buffer ++ bytes } : OpenFile).Writable (text ++ bytes) :=
  ⟨writable.obliging, writable.clean, writable.mode,
    by rw [← writable.written, List.append_assoc], writable.position, fits, writable.index⟩

theorem filePutc_writes (c : UInt8) :
    ∃ after, file.filePutc c = .ok (0, after) ∧ after.Writable (text ++ [c]) := by
  have appends {before : OpenFile} (writable' : before.Writable text)
      (room : before.buffer.length < fileBufferSize) :
      ({ before with buffer := before.buffer ++ [c] } : OpenFile).Writable (text ++ [c]) :=
    writable'.append (by rw [List.length_append]; exact room)
  unfold filePutc
  rw [assert_mode writable.mode, ok_bind, if_neg (by simp [writable.clean])]
  by_cases full : file.buffer.length ≥ fileBufferSize
  · obtain ⟨retval, after, flushes, succeeds, -, writable', isEmpty⟩ :=
      flushBuffer_flushes writable
    rw [if_pos full, flushes, ok_bind]
    dsimp only
    rw [if_neg succeeds]
    exact ⟨_, rfl, appends writable' (by rw [isEmpty]; decide)⟩
  · rw [if_neg full, ok_bind]
    dsimp only
    rw [if_neg (by decide)]
    exact ⟨_, rfl, appends writable (Nat.lt_of_not_le full)⟩

/-- The loop of `fileWrite` copies at least one byte a round, except that it may find the buffer
full at first. -/
theorem copyLoop_writes {fuel : Nat} {bytes : List UInt8}
    (enough : bytes.length + (if file.buffer.length = fileBufferSize then 1 else 0) < fuel) :
    ∃ after, copyLoop fuel bytes file = .ok (0, after) ∧ after.Writable (text ++ bytes) := by
  induction fuel generalizing bytes file text with
  | zero => exact absurd enough (Nat.not_lt_zero _)
  | succ fuel inductionHypothesis =>
    have room := writable.room
    unfold copyLoop
    generalize isLength : min (fileBufferSize - file.buffer.length) bytes.length = minLength
    have fits : (file.buffer ++ bytes.take minLength).length ≤ fileBufferSize := by
      rw [List.length_append, List.length_take]
      omega
    dsimp only
    by_cases last : bytes.length - minLength = 0
    · rw [if_pos last]
      rw [List.take_of_length_le (by omega)] at fits ⊢
      exact ⟨_, rfl, writable.append fits⟩
    · obtain ⟨retval, after, flushes, succeeds, -, writable', isEmpty⟩ :=
        flushBuffer_flushes (writable.append fits)
      rw [if_neg last, flushes, ok_bind]
      dsimp only
      rw [if_neg succeeds]
      have fewer : (bytes.drop minLength).length +
          (if after.buffer.length = fileBufferSize then 1 else 0) < fuel := by
        rw [isEmpty, if_neg (by decide), List.length_drop]
        split at enough <;> omega
      obtain ⟨final, copies, writable''⟩ := inductionHypothesis writable' fewer
      rw [List.append_assoc, List.take_append_drop] at writable''
      exact ⟨final, copies, writable''⟩

theorem fileWrite_writes (bytes : List UInt8) :
    ∃ after, file.fileWrite bytes = .ok (0, after) ∧ after.Writable (text ++ bytes) := by
  unfold fileWrite
  rw [assert_mode writable.mode, ok_bind, if_neg (by simp [writable.clean])]
  exact copyLoop_writes writable (by split <;> omega)

/-- Rewinding a file that was flushed makes the text readable. -/
theorem fileRewind_reads (flushed : file.buffer = []) :
    ∃ after, file.fileRewind .read = .ok (0, after) ∧ after.Readable text ∧ after.eof ≠ .hit := by
  obtain ⟨retval, after, flushes, -, returnsZero, writable', isEmpty⟩ :=
    flushBuffer_flushes writable
  unfold fileRewind
  rw [assert_true (by simp), ok_bind, flushes, ok_bind]
  dsimp only
  rw [returnsZero flushed, if_neg (by decide)]
  refine ⟨_, rfl, ⟨writable'.obliging, writable'.clean, rfl, ?_, ?_, fun seen => absurd rfl seen⟩,
    (by decide : EOFState.no ≠ .hit)⟩
  · show after.bufferIndex ≤ after.buffer.length
    rw [writable'.index]
    exact Nat.zero_le _
  · show after.buffer.drop after.bufferIndex ++ after.disk.drop 0 = text
    rw [← writable'.written, isEmpty, List.drop_nil, List.append_nil]
    rfl

end Writing

end OpenFile

/-! ### Writing and reading back -/

/-- A call that writes. -/
inductive WriteCall where
  | filePutc (c : UInt8)
  | fileWrite (bytes : List UInt8)
  deriving DecidableEq, Repr

/-- The bytes a call is given. -/
def WriteCall.bytes : WriteCall → List UInt8
  | .filePutc c => [c]
  | .fileWrite bytes => bytes

def WriteCall.run : WriteCall → OpenFile → Except Failure (Int × OpenFile)
  | .filePutc c, file => file.filePutc c
  | .fileWrite bytes, file => file.fileWrite bytes

/-- What some calls return, and the file behind them. -/
def writeCalls : List WriteCall → OpenFile → Except Failure (List Int × OpenFile)
  | [], file => .ok ([], file)
  | call :: calls, file => do
    let (retval, file) ← call.run file
    let (retvals, file) ← writeCalls calls file
    .ok (retval :: retvals, file)

/-- A fresh file is written, flushed and rewound. -/
def writeAndRewind (system : System) (calls : List WriteCall) :
    Except Failure (List Int × OpenFile) := do
  let (retvals, file) ← writeCalls calls (OpenFile.fileWrapFD system [] .write)
  let (flushed, file) ← file.fileFlush
  let (rewound, file) ← file.fileRewind .read
  .ok (retvals ++ [flushed, rewound], file)

/-- What some calls of `fileGetc` return, and the file behind them. -/
def getcCalls : Nat → OpenFile → Except Failure (List (Option UInt8) × OpenFile)
  | 0, file => .ok ([], file)
  | count + 1, file => do
    let (chars, file) ← getcCalls count file
    let (char, file) ← file.fileGetc
    .ok (chars ++ [char], file)

theorem writeCalls_writes {text : List UInt8} (writable : file.Writable text)
    (calls : List WriteCall) :
    ∃ after, writeCalls calls file = .ok (List.replicate calls.length 0, after) ∧
      after.Writable (text ++ (calls.map WriteCall.bytes).flatten) := by
  induction calls generalizing file text with
  | nil => exact ⟨file, rfl, by simpa using writable⟩
  | cons call calls inductionHypothesis =>
    obtain ⟨after, writes, writable'⟩ : ∃ after, call.run file = .ok (0, after) ∧
        after.Writable (text ++ call.bytes) := by
      cases call with
      | filePutc c => exact OpenFile.filePutc_writes writable c
      | fileWrite bytes => exact OpenFile.fileWrite_writes writable bytes
    obtain ⟨final, continues, writable''⟩ := inductionHypothesis writable'
    rw [List.append_assoc] at writable''
    refine ⟨final, ?_, writable''⟩
    rw [writeCalls, writes, ok_bind]
    dsimp only
    rw [continues]
    rfl

/-- What a file shows behind `count` calls of `fileGetc`. -/
structure Replayed (text : List UInt8) (count : Nat) (file : OpenFile) : Prop where
  readable : file.Readable (text.drop count)
  ended : file.fileEof = true ↔ text.length < count
  again : ∀ byte, 0 < count → text[count - 1]? = some byte → ∃ back,
    file.fileUngetc byte = .ok (some byte, back) ∧ back.fileGetc = .ok (some byte, file)

/-- The calls return the bytes of the text in order, and then nothing. -/
theorem getcCalls_reads {text : List UInt8} (readable : file.Readable text)
    (fresh : file.eof ≠ .hit) (count : Nat) :
    ∃ after, getcCalls count file = .ok ((List.range count).map (text[·]?), after) ∧
      Replayed text count after := by
  induction count with
  | zero =>
    refine ⟨file, rfl, readable, ?_, fun _ none => absurd none (Nat.lt_irrefl 0)⟩
    rw [OpenFile.fileEof, beq_iff_eq]
    exact iff_of_false fresh (Nat.not_lt_zero _)
  | succ count inductionHypothesis =>
    obtain ⟨before, reads, readBack⟩ := inductionHypothesis
    have unended : ¬ text.length < count → before.eof ≠ .hit := fun inside hit =>
      inside (readBack.ended.mp (beq_iff_eq.mpr hit))
    rw [getcCalls, reads, ok_bind, List.range_succ, List.map_append]
    dsimp only
    rcases OpenFile.fileGetc_returns readBack.readable with
      ⟨byte, filled, returns, readable, isInside, ended, -⟩ |
      ⟨isEnd, after, returns, readable', hit, -⟩
    · obtain ⟨rest, isNext, readable'⟩ := readable.step isInside
      have inside : count < text.length := by
        by_contra outside
        rw [List.drop_eq_nil_of_le (Nat.le_of_not_lt outside)] at isNext
        contradiction
      rw [List.drop_eq_getElem_cons inside, List.cons.injEq] at isNext
      obtain ⟨isByte, rfl⟩ := isNext
      have found : text[count]? = some byte := by rw [List.getElem?_eq_getElem inside, isByte]
      rw [returns, ok_bind]
      dsimp only
      refine ⟨_, by rw [List.map_singleton, found], readable', ?_, fun other _ isOther => ?_⟩
      · rw [OpenFile.fileEof, beq_iff_eq]
        exact iff_of_false (fun hit => unended (by omega) (ended.mpr hit)) (by omega)
      · rw [Nat.add_sub_cancel, found] at isOther
        obtain rfl := Option.some.inj isOther
        exact ⟨filled, OpenFile.fileUngetc_inside readable.clean readable.mode isInside,
          OpenFile.fileGetc_inside readable.clean readable.mode isInside⟩
    · have outside : text.length ≤ count := List.drop_eq_nil_iff.mp isEnd
      have none : text[count]? = none := List.getElem?_eq_none outside
      rw [returns, ok_bind]
      dsimp only
      refine ⟨after, by rw [List.map_singleton, none], ?_, ?_, fun other _ isOther => ?_⟩
      · rw [List.drop_eq_nil_of_le (Nat.le_succ_of_le outside)]
        exact readable'
      · rw [OpenFile.fileEof, beq_iff_eq]
        exact iff_of_true hit (Nat.lt_succ_of_le outside)
      · rw [Nat.add_sub_cancel, none] at isOther
        contradiction

/-- What was written with any calls to a fresh file is read back. All calls that write return `0`.
The `count`-th call of `fileGetc` returns the `count`-th byte and `EOF` behind the last one;
`fileEof` holds as soon as `EOF` was returned and not before; and the byte that was read last can be
put back, after which it is returned again and the file is as before. -/
theorem written_is_readBack {system : System} (obliging : system.Obliging)
    (calls : List WriteCall) :
    ∃ file, writeAndRewind system calls = .ok (List.replicate (calls.length + 2) 0, file) ∧
      ∀ count, ∃ after, getcCalls count file =
          .ok ((List.range count).map ((calls.map WriteCall.bytes).flatten[·]?), after) ∧
        (after.fileEof = true ↔ (calls.map WriteCall.bytes).flatten.length < count) ∧
        ∀ byte, 0 < count → (calls.map WriteCall.bytes).flatten[count - 1]? = some byte → ∃ back,
          after.fileUngetc byte = .ok (some byte, back) ∧
          back.fileGetc = .ok (some byte, after) := by
  have start : (OpenFile.fileWrapFD system [] .write).Writable [] :=
    ⟨obliging, rfl, rfl, rfl, rfl, Nat.zero_le _, rfl⟩
  obtain ⟨written, writes, writable⟩ := writeCalls_writes start calls
  rw [List.nil_append] at writable
  obtain ⟨flushed, flushes, writable', isEmpty⟩ := OpenFile.fileFlush_flushes writable
  obtain ⟨file, rewinds, readable, fresh⟩ := OpenFile.fileRewind_reads writable' isEmpty
  refine ⟨file, ?_, fun count => ?_⟩
  · rw [writeAndRewind, writes, ok_bind]
    dsimp only
    rw [flushes, ok_bind]
    dsimp only
    rw [rewinds, ok_bind, List.replicate_add]
    rfl
  · obtain ⟨after, reads, readBack⟩ := getcCalls_reads readable fresh count
    exact ⟨after, reads, readBack.ended, readBack.again⟩

/-- Two calls on a system that interrupts the first call and then takes one byte at a time. -/
theorem written_is_readBack_short :
    ∃ file, writeAndRewind ⟨fun call => if call = 0 then .interrupted else .bytes 1, 1,
          fun call late => by rw [if_neg (by omega)]; simp⟩ [.filePutc 0x61, .fileWrite [0x62]] =
        .ok (List.replicate 4 0, file) ∧
      ∀ count, ∃ after, getcCalls count file =
          .ok ((List.range count).map (([0x61, 0x62] : List UInt8)[·]?), after) ∧
        (after.fileEof = true ↔ 2 < count) ∧
        ∀ byte, 0 < count → ([0x61, 0x62] : List UInt8)[count - 1]? = some byte → ∃ back,
          after.fileUngetc byte = .ok (some byte, back) ∧
          back.fileGetc = .ok (some byte, after) :=
  written_is_readBack
    (fun call => by
      by_cases first : call = 0
      · exact Or.inl (if_pos first)
      · exact Or.inr ⟨1, if_neg first⟩)
    [.filePutc 0x61, .fileWrite [0x62]]

end Dwdiff
