/-
This file models the byte streams of `stream.c`: the file stream that reads a
temporary or input file, and the string stream that reads an option argument or
a buffered whitespace run. Both sit behind one vtable and carry the same look
ahead fields for the Unicode routines. A run that does not return stops with a
`Failure`: an `ASSERT` that does not hold, or a call of `fatal`.
-/

import Mathlib.Data.List.Basic

namespace Dwdiff

variable {Fault Value Result : Type}

/-- The ways a run stops without returning. `ASSERT` and `PANIC` end in
`fatal("Program-logic error ...")`; the failing condition is kept instead of the line number.
`undefined` marks an access outside an array, and `diverges` a loop of the model that ran past
its bound. -/
inductive Failure where
  | assertion (condition : String)
  | fatal (message : String)
  | undefined
  | diverges
  deriving DecidableEq, Repr

/-- `ASSERT(_condition)`. -/
def assert (condition : Bool) (text : String) : Except Failure Unit :=
  if condition then .ok () else .error (.assertion text)

theorem assert_true {condition : Bool} {text : String} (holds : condition = true) :
    assert condition text = .ok () := if_pos holds

@[simp] theorem ok_bind (value : Value) (next : Value → Except Fault Result) :
    (Except.ok value >>= next) = next value := rfl

@[simp] theorem error_bind (failure : Fault) (next : Value → Except Fault Result) :
    ((Except.error failure : Except Fault Value) >>= next) = .error failure := rfl

/-- A sequence returns when its first part does and the rest does after it. -/
theorem bind_eq_ok {first : Except Fault Value} {next : Value → Except Fault Result}
    {result : Result} :
    (first >>= next) = .ok result ↔ ∃ value, first = .ok value ∧ next value = .ok result := by
  cases first with
  | error failure => simp
  | ok value => simp

/-- The lines of a text, each with its line feed; the last one may have none. -/
def linesOf : List UInt8 → List (List UInt8)
  | [] => []
  | c :: rest =>
    if c = 10 then [c] :: linesOf rest
    else
      match linesOf rest with
      | [] => [[c]]
      | line :: lines => (c :: line) :: lines

theorem linesOf_flatten (text : List UInt8) : (linesOf text).flatten = text := by
  induction text with
  | nil => rfl
  | cons c rest inductionHypothesis =>
    rw [linesOf]
    split
    · rw [List.flatten_cons, inductionHypothesis, List.singleton_append]
    · cases isLines : linesOf rest with
      | nil | cons line lines =>
        rw [isLines] at inductionHypothesis
        rw [← inductionHypothesis]
        rfl

/-- The two vtables of `stream.c`. -/
inductive StreamKind where
  | file
  | string
  deriving DecidableEq, Repr

/-- `EOFState` of `file.h`. -/
inductive EOFState where
  | no
  | coming
  | hit
  deriving DecidableEq, Repr

/-- The `data` of a `Stream`, with all its bytes at hand. They are kept as a zipper: `consumed`
holds the bytes already read, last one first, and `remaining` the bytes still to come. -/
structure Bytes where
  kind : StreamKind
  consumed : List UInt8
  remaining : List UInt8
  eof : EOFState
  deriving DecidableEq, Repr

/-- A `Stream` over some kind of `data`. -/
structure Stream (Source : Type := Bytes) where
  source : Source
  bufferedChar : Int
  lastClusterCategory : Nat
  highSurrogate : Nat
  nextChar : Int
  deriving DecidableEq, Repr

namespace Stream

variable (stream : Stream)

abbrev kind : StreamKind := stream.source.kind

abbrev consumed : List UInt8 := stream.source.consumed

abbrev remaining : List UInt8 := stream.source.remaining

abbrev eof : EOFState := stream.source.eof

end Stream

/-- A stream on a source of which nothing was read. -/
def Stream.new {Source : Type} (source : Source) : Stream Source := ⟨source, -1, 0, 0, -1⟩

/-- `newFileStream` on a file that is open for reading and rewound. -/
def newFileStream (bytes : List UInt8) : Stream := .new ⟨.file, [], bytes, .no⟩

@[simp] theorem newFileStream_remaining (bytes : List UInt8) :
    (newFileStream bytes).remaining = bytes := rfl

def newStringStream (bytes : List UInt8) : Stream :=
  .new ⟨.string, [], bytes, .no⟩

variable (stream : Stream)

/-- The stream after its reader consumed a prefix of the remaining bytes. -/
def Stream.advance (read rest : List UInt8) : Stream :=
  { stream with
    source.consumed := read.reverse ++ stream.consumed, source.remaining := rest }

/-- `getCharFile` and `getCharString`. Only the file stream records that it ran into the end. -/
def Stream.getChar : Option UInt8 × Stream :=
  match stream.remaining with
  | [] =>
    match stream.kind with
    | .file => (none, { stream with source.eof := .hit })
    | .string => (none, stream)
  | byte :: rest =>
    (some byte, stream.advance [byte] rest)

/-- A byte read back through plain `char`, which is signed on the release targets. -/
def signedChar (byte : UInt8) : Int :=
  if byte.toNat < 128 then byte.toNat else (byte.toNat : Int) - 256

/-- `ungetCharFile` and `ungetCharString`. The string version does not store the byte: it steps
back and asserts that the byte found there, a plain `char`, equals the `int` pushed back. -/
def Stream.ungetChar (char : UInt8) : Except Failure Stream :=
  match stream.kind, stream.consumed with
  | .file, [] => .error (.assertion "file->bufferIndex > 0")
  | .file, _ :: before =>
    .ok { stream with
      source.consumed := before, source.remaining := char :: stream.remaining }
  | .string, [] => .ok stream
  | .string, byte :: before => do
    assert (signedChar byte == char.toNat)
      "stream->data.string.string[--stream->data.string.index] == c"
    .ok { stream with
      source.consumed := before, source.remaining := byte :: stream.remaining }

/-- `fileClearEof`, called by the cluster reader after its look ahead. -/
def Stream.clearEof : Stream :=
  match stream.kind with
  | .file => { stream with source.eof := .coming }
  | .string => stream

theorem getChar_cons (byte : UInt8) (rest : List UInt8) (starts : stream.remaining = byte :: rest) :
    stream.getChar = (some byte, stream.advance [byte] rest) := by
  unfold Stream.getChar
  rw [starts]

theorem getChar_end (file : stream.kind = .file) (ends : stream.remaining = []) :
    stream.getChar = (none, { stream with source.eof := .hit }) := by
  rw [Stream.getChar, ends, file]

/-- The functions of a `StreamVtable`, and what else is done with the data of a stream. -/
class StreamVtable (Source : Type) where
  getChar : Stream Source → Except Failure (Option UInt8 × Stream Source)
  ungetChar : Stream Source → UInt8 → Except Failure (Stream Source)
  /-- `fileClearEof`, if the stream is that of a file. -/
  clearEof : Stream Source → Stream Source
  sfeof : Stream Source → Except Failure Bool
  newStringStream : List UInt8 → Stream Source
  /-- The bytes that are left, at most. -/
  supply : Source → Nat

instance : StreamVtable Bytes where
  getChar stream := .ok stream.getChar
  ungetChar := Stream.ungetChar
  clearEof := Stream.clearEof
  sfeof stream := .ok (stream.eof == .hit)
  newStringStream := newStringStream
  supply bytes := bytes.remaining.length

theorem vtable_getChar : StreamVtable.getChar stream = .ok stream.getChar := rfl

theorem vtable_getChar_cons (byte : UInt8) (rest : List UInt8)
    (starts : stream.remaining = byte :: rest) :
    StreamVtable.getChar stream = .ok (some byte, stream.advance [byte] rest) :=
  congrArg Except.ok (getChar_cons stream byte rest starts)

@[simp] theorem advance_advance (first second rest rest' : List UInt8) :
    (stream.advance first rest).advance second rest' = stream.advance (first ++ second) rest' := by
  simp [Stream.advance]

@[simp] theorem advance_remaining (read rest : List UInt8) :
    (stream.advance read rest).remaining = rest := rfl

/-- Pushing back the byte just read from a file undoes the read. -/
theorem ungetChar_advance (read : List UInt8) (byte : UInt8) (rest : List UInt8)
    (file : stream.kind = .file) :
    (stream.advance (read ++ [byte]) rest).ungetChar byte =
      .ok (stream.advance read (byte :: rest)) := by
  simp [Stream.ungetChar, Stream.advance, file]

end Dwdiff
