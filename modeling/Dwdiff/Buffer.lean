/-
This file models `buffer.c`, through which all output goes. Without context lines
the text is written as it comes. With context lines the text of common lines is
kept in a ring of buffers, one more than there are lines of context, until it is
known whether a change follows. `option.output` and the standard output are the
same file here, as they are in every run that is not started by dwfilter.
-/

import Dwdiff.Printing

namespace Dwdiff

variable {buffer : CharBuffer} {width : Nat}

/-! ### Vectors of characters -/

/-- A `CharBuffer`: the bytes in use, and how many are allocated. -/
structure CharBuffer where
  data : List UInt8
  allocated : Nat
  deriving DecidableEq, Repr

/-- `VECTOR_INIT`. -/
def CharBuffer.empty : CharBuffer := ⟨[], 0⟩

/-- `VECTOR_INITIAL_SIZE`. -/
def vectorInitialSize : Nat := 32

/-- `VECTOR_APPEND`. -/
def CharBuffer.append (buffer : CharBuffer) (byte : UInt8) : CharBuffer where
  data := buffer.data ++ [byte]
  allocated :=
    if buffer.allocated ≤ buffer.data.length then
      if buffer.allocated = 0 then vectorInitialSize else buffer.allocated * 2
    else buffer.allocated

/-- The loop of `VECTOR_ALLOCATE`. As many rounds as bytes are needed are enough. -/
def doubleUntil (needed : Nat) : Nat → Nat → Nat
  | 0, allocated => allocated
  | fuel + 1, allocated =>
    if allocated ≤ needed then doubleUntil needed fuel (allocated * 2) else allocated

/-- `VECTOR_ALLOCATE`. -/
def CharBuffer.allocate (buffer : CharBuffer) (count : Nat) : CharBuffer :=
  let needed := buffer.data.length + count
  if needed < buffer.allocated then buffer
  else { buffer with
    allocated := doubleUntil needed (needed + 1)
      (if buffer.allocated = 0 then vectorInitialSize else buffer.allocated) }

/-- A string is copied behind the bytes in use. -/
def CharBuffer.copy (buffer : CharBuffer) (string : List UInt8) : CharBuffer :=
  let buffer := buffer.allocate string.length
  { buffer with data := buffer.data ++ string }

/-! ### Numbers -/

/-- `%d`, for a number that is not negative. -/
def decimal (number : Nat) : List UInt8 :=
  (Nat.toDigits 10 number).map fun digit => digit.toNat.toUInt8

/-- `LINENUMBERS_FMT_ARGS`. -/
def lineNumbersText (width oldLineNumber newLineNumber : Nat) : List UInt8 :=
  let old := decimal oldLineNumber
  let new := decimal newLineNumber
  List.replicate (width - old.length) 0x20 ++ old ++ [0x3A] ++ new ++
    List.replicate (width - new.length) 0x20 ++ [0x20]

/-- What `snprintf` writes into `size` bytes. -/
def snprintf (size : Nat) (text : List UInt8) : List UInt8 :=
  if size = 0 then [] else text.take (size - 1) ++ [0]

/-! ### The buffers -/

inductive PrintState where
  | printingChanged
  | printingAfterContext
  | preBuffering
  | buffering
  | preBufferingInitial
  | bufferingInitial
  deriving DecidableEq, Repr

/-- The characters go into the buffer. -/
def PrintState.buffers : PrintState → Bool
  | .printingChanged | .printingAfterContext => false
  | .preBuffering | .buffering | .preBufferingInitial | .bufferingInitial => true

/-- The static variables of `buffer.c`, and what was written. -/
structure Buffers (contextLines : Nat) where
  contextBuffers : Vector CharBuffer (contextLines + 1)
  state : PrintState
  bufferIndex : Fin (contextLines + 1)
  afterContextLines : Nat
  output : List UInt8
  deriving DecidableEq, Repr

/-- The buffers at the start of the program. -/
def initialBuffers (contextLines : Nat) : Buffers contextLines where
  contextBuffers := Vector.replicate (contextLines + 1) .empty
  state := .preBufferingInitial
  bufferIndex := 0
  afterContextLines := 0
  output := []

section Buffers

variable {contextLines : Nat}

variable (buffers : Buffers contextLines)

/-- Text that is written at once. -/
def Buffers.put (text : List UInt8) : Buffers contextLines :=
  { buffers with output := buffers.output ++ text }

/-- The buffer of the present line. -/
def Buffers.current : CharBuffer :=
  buffers.contextBuffers.get buffers.bufferIndex

def Buffers.setCurrent (buffer : CharBuffer) : Buffers contextLines :=
  { buffers with
    contextBuffers := buffers.contextBuffers.set buffers.bufferIndex buffer buffers.bufferIndex.2 }

/-- The buffers from an index on. -/
def Buffers.upperText (start : Nat) : List UInt8 :=
  (buffers.contextBuffers.toList.drop start).flatMap CharBuffer.data

/-- The buffers below an index. -/
def Buffers.lowerText (stop : Nat) : List UInt8 :=
  (buffers.contextBuffers.toList.take stop).flatMap CharBuffer.data

/-- `--` on a line of its own. -/
def separator : List UInt8 := [0x2D, 0x2D, 0x0A]

/-- What is printed of the buffers before a character that is not common. -/
def Buffers.heldText : List UInt8 :=
  let above := buffers.upperText (buffers.bufferIndex + 1)
  let below := buffers.lowerText (buffers.bufferIndex + 1)
  match buffers.state with
  | .printingChanged | .printingAfterContext => []
  | .buffering => separator ++ above ++ below
  | .bufferingInitial => above ++ below
  | .preBuffering | .preBufferingInitial => below

/-- A character that is not common was found. -/
def Buffers.reveal : Buffers contextLines :=
  { buffers.put buffers.heldText with state := .printingChanged }

/-- `bufferIndex++`, with the test that follows. -/
def nextIndex (index : Fin (contextLines + 1)) : Fin (contextLines + 1) :=
  if low : index.val + 1 ≤ contextLines then ⟨index + 1, by omega⟩ else 0

/-- The state behind a newline. -/
def Buffers.endLine : Buffers contextLines :=
  let wraps := contextLines < buffers.bufferIndex + 1
  let buffers := match buffers.state with
    | .printingChanged =>
      if contextLines = 0 then { buffers with state := .preBuffering }
      else { buffers with state := .printingAfterContext, afterContextLines := 0 }
    | .printingAfterContext =>
      if buffers.afterContextLines + 1 = contextLines then
        { buffers with
          afterContextLines := buffers.afterContextLines + 1
          state := .preBuffering
          bufferIndex := 0 }
      else { buffers with afterContextLines := buffers.afterContextLines + 1 }
    | .preBufferingInitial => { buffers with
        state := if wraps then .bufferingInitial else .preBufferingInitial
        bufferIndex := nextIndex buffers.bufferIndex }
    | .preBuffering => { buffers with
        state := if wraps then .buffering else .preBuffering
        bufferIndex := nextIndex buffers.bufferIndex }
    | .bufferingInitial | .buffering =>
      { buffers with bufferIndex := nextIndex buffers.bufferIndex }
  buffers.setCurrent { buffers.current with data := [] }

def addchar (context : Bool) (c : UInt8) (common : Bool) (buffers : Buffers contextLines) :
    Buffers contextLines :=
  if !context then buffers.put [c]
  else
    let buffers := if common then buffers else buffers.reveal
    let buffers := if buffers.state.buffers then buffers.setCurrent (buffers.current.append c)
      else buffers.put [c]
    if c = 10 then buffers.endLine else buffers

def writeString (context : Bool) (string : List UInt8) (buffers : Buffers contextLines) :
    Buffers contextLines :=
  if !context then buffers.put string
  else if buffers.state.buffers then buffers.setCurrent (buffers.current.copy string)
  else buffers.put string

/-- The line numbers in a buffer. The room for the first call of `snprintf` is computed before
the buffer grows, and a text that just fills it loses its last character to the terminator. -/
def CharBuffer.printNumbers (buffer : CharBuffer) (text : List UInt8) : CharBuffer :=
  let allowed := buffer.allocated - buffer.data.length
  let buffer := buffer.allocate 4
  if allowed < text.length then
    let buffer := buffer.allocate text.length
    let allowed := buffer.allocated - buffer.data.length
    { buffer with data := buffer.data ++ (snprintf allowed text).take text.length }
  else { buffer with data := buffer.data ++ (snprintf allowed text).take text.length }

def printLineNumbers (context : Bool) (width oldLineNumber newLineNumber : Nat)
    (buffers : Buffers contextLines) : Buffers contextLines :=
  let text := lineNumbersText width oldLineNumber newLineNumber
  if !context then buffers.put text
  else if buffers.state.buffers then buffers.setCurrent (buffers.current.printNumbers text)
  else buffers.put text

/-- One of the calls that produce output. -/
def Buffers.perform (context : Bool) (width : Nat) (buffers : Buffers contextLines)
    (emission : Emission) : Buffers contextLines :=
  match emission with
  | .addchar c common => addchar context c common buffers
  | .writeString string => writeString context string buffers
  | .printLineNumbers oldLineNumber newLineNumber =>
    printLineNumbers context width oldLineNumber newLineNumber buffers
  | .puts string => buffers.put (string.toUTF8.toList ++ [10])

/-- All the calls, in order. -/
def Buffers.performAll (context : Bool) (width : Nat) (buffers : Buffers contextLines)
    (emissions : List Emission) : Buffers contextLines :=
  emissions.foldl (Buffers.perform context width) buffers

/-! ### Line numbers counted in an `int` -/

/-- `INT_MAX`. -/
def intMax : Nat := 2147483647

/-- A `size_t` that is stored in an `int`. -/
def intOfSize (size : Nat) : Int := Int.bmod size (2 ^ 32)

/-- An `int` that is passed as a `size_t`. -/
def sizeOfInt (value : Int) : Nat := (value % 2 ^ 64).toNat

/-- What `snprintf` returns: the length of the text, or a negative number if that is no `int`. -/
def snprintfReturns (text : List UInt8) : Int := if text.length ≤ intMax then text.length else -1

/-- The line numbers in a buffer, with `printed` and `allowed` of type `int`. -/
def CharBuffer.printNumbersInt (buffer : CharBuffer) (text : List UInt8) :
    Except Failure CharBuffer := do
  let allowed := intOfSize (buffer.allocated - buffer.data.length)
  let buffer := buffer.allocate 4
  let printed := snprintfReturns text
  let (buffer, allowed) :=
    if printed > allowed then
      let buffer := buffer.allocate printed.toNat
      (buffer, intOfSize (buffer.allocated - buffer.data.length))
    else (buffer, allowed)
  assert (printed ≥ 2) "printed >= 2"
  .ok { buffer with
    data := buffer.data ++ (snprintf (sizeOfInt allowed) text).take printed.toNat }

/-- `printLineNumbers` with context lines, down to its `int`s. -/
def printLineNumbersInt (width oldLineNumber newLineNumber : Nat)
    (buffers : Buffers contextLines) : Except Failure (Buffers contextLines) :=
  let text := lineNumbersText width oldLineNumber newLineNumber
  if buffers.state.buffers then do
    let buffer ← buffers.current.printNumbersInt text
    .ok (buffers.setCurrent buffer)
  else .ok (buffers.put text)

/-- One of the calls, with context lines. -/
def Buffers.performInt (width : Nat) (buffers : Buffers contextLines) :
    Emission → Except Failure (Buffers contextLines)
  | .printLineNumbers oldLineNumber newLineNumber =>
    printLineNumbersInt width oldLineNumber newLineNumber buffers
  | emission => .ok (buffers.perform true width emission)

/-! ### Line numbers that fill the buffer -/

@[simp] theorem allocate_data (buffer : CharBuffer) (count : Nat) :
    (buffer.allocate count).data = buffer.data := by
  unfold CharBuffer.allocate
  dsimp only
  split <;> rfl

theorem lt_doubleUntil {needed fuel allocated : Nat} (something : 0 < allocated)
    (enough : needed < allocated + fuel) : needed < doubleUntil needed fuel allocated := by
  induction fuel generalizing allocated with
  | zero => exact enough
  | succ fuel inductionHypothesis =>
    unfold doubleUntil
    split
    · exact inductionHypothesis (by omega) (by omega)
    · omega

/-- `VECTOR_ALLOCATE` leaves room for one byte more than it was asked for. -/
theorem lt_allocate (buffer : CharBuffer) (count : Nat) :
    buffer.data.length + count < (buffer.allocate count).allocated := by
  unfold CharBuffer.allocate
  dsimp only
  split
  · assumption
  · refine lt_doubleUntil ?_ (by omega)
    split
    · decide
    · omega

/-- A text that just fills the room loses its last character to the terminator, and no other
text loses anything. -/
theorem snprintf_take_eq_iff {size : Nat} {front : List UInt8} {last : UInt8}
    (fits : front.length + 1 ≤ size) (visible : last ≠ 0) :
    (snprintf size (front ++ [last])).take (front.length + 1) = front ++ [last] ↔
      size ≠ front.length + 1 := by
  rw [snprintf, if_neg (by omega)]
  constructor
  · rintro whole rfl
    rw [Nat.add_sub_cancel, List.take_left, List.take_of_length_le (by simp)] at whole
    exact visible (List.cons.inj (List.append_cancel_left whole)).1.symm
  · intro more
    rw [List.take_of_length_le (i := size - 1) (by simp; omega)]
    exact List.take_left' (by simp)

/-- The line numbers are whole in the buffer unless they just fill the room left in it. -/
theorem printNumbers_data_eq_iff (buffer : CharBuffer) {front : List UInt8} {last : UInt8}
    (visible : last ≠ 0) :
    (buffer.printNumbers (front ++ [last])).data = buffer.data ++ (front ++ [last]) ↔
      buffer.allocated - buffer.data.length ≠ front.length + 1 := by
  unfold CharBuffer.printNumbers
  rw [List.length_append, List.length_singleton]
  dsimp only
  split
  · next short =>
    have room := lt_allocate (buffer.allocate 4) (front.length + 1)
    rw [allocate_data] at room
    rw [allocate_data, allocate_data, List.append_right_inj,
      snprintf_take_eq_iff (by omega) visible]
    exact ⟨fun _ => by omega, fun _ => by omega⟩
  · next long =>
    rw [allocate_data, List.append_right_inj, snprintf_take_eq_iff (by omega) visible]

/-- A size is read back from an `int`; one that is too large for that has become negative, which
is a larger size. -/
theorem le_sizeOfInt {size : Nat} (small : size < 2 ^ 32) :
    size ≤ sizeOfInt (intOfSize size) ∧ (size ≤ intMax → intOfSize size = size ∧
      sizeOfInt (intOfSize size) = size) := by
  unfold sizeOfInt intOfSize intMax Int.bmod
  dsimp only
  omega

/-! ### The sizes of the buffers -/

/-- The bytes in use are allocated, and the size has only been doubled. -/
structure CharBuffer.Sized (buffer : CharBuffer) : Prop where
  used : buffer.data.length ≤ buffer.allocated
  doubled : buffer.allocated = 0 ∨ ∃ exponent, buffer.allocated = 2 ^ exponent

theorem doubleUntil_doubled {needed fuel allocated : Nat}
    (doubled : ∃ exponent, allocated = 2 ^ exponent) :
    ∃ exponent, doubleUntil needed fuel allocated = 2 ^ exponent := by
  induction fuel generalizing allocated with
  | zero => exact doubled
  | succ fuel inductionHypothesis =>
    unfold doubleUntil
    split
    · obtain ⟨exponent, rfl⟩ := doubled
      exact inductionHypothesis ⟨exponent + 1, (Nat.pow_succ ..).symm⟩
    · exact doubled

theorem doubleUntil_le (needed fuel allocated : Nat) :
    doubleUntil needed fuel allocated ≤ max allocated (2 * needed) := by
  induction fuel generalizing allocated with
  | zero => exact Nat.le_max_left _ _
  | succ fuel inductionHypothesis =>
    unfold doubleUntil
    split
    · have le := inductionHypothesis (allocated * 2)
      omega
    · exact Nat.le_max_left _ _

section Sized

variable {buffer : CharBuffer} (sized : buffer.Sized)

include sized

theorem CharBuffer.Sized.allocate (count : Nat) : (buffer.allocate count).Sized := by
  refine ⟨?_, ?_⟩
  · have room := lt_allocate buffer count
    rw [allocate_data]
    omega
  · unfold CharBuffer.allocate
    dsimp only
    split
    · exact sized.doubled
    · refine Or.inr (doubleUntil_doubled ?_)
      split
      · exact ⟨5, rfl⟩
      · next something => exact sized.doubled.resolve_left something

theorem CharBuffer.Sized.append (byte : UInt8) : (buffer.append byte).Sized := by
  have used := sized.used
  refine ⟨?_, ?_⟩
  · show (buffer.data ++ [byte]).length ≤ ite _ _ _
    rw [List.length_append, List.length_singleton]
    split
    · split
      · have : vectorInitialSize = 32 := rfl
        omega
      · omega
    · omega
  · show ite _ _ _ = 0 ∨ ∃ exponent, ite _ _ _ = _
    split
    · split
      · exact Or.inr ⟨5, rfl⟩
      · next something =>
        obtain ⟨exponent, isPower⟩ := sized.doubled.resolve_left something
        exact Or.inr ⟨exponent + 1, by rw [isPower, Nat.pow_succ]⟩
    · exact sized.doubled

/-- What is written into the room that was allocated. -/
theorem CharBuffer.Sized.write {text : List UInt8} {count : Nat} (fits : text.length ≤ count) :
    ({ buffer.allocate count with
      data := (buffer.allocate count).data ++ text } : CharBuffer).Sized := by
  refine ⟨?_, (sized.allocate count).doubled⟩
  have room := lt_allocate buffer count
  show ((buffer.allocate count).data ++ text).length ≤ (buffer.allocate count).allocated
  rw [List.length_append, allocate_data]
  omega

theorem CharBuffer.Sized.clear : ({ buffer with data := [] } : CharBuffer).Sized :=
  ⟨Nat.zero_le _, sized.doubled⟩

/-- A size below a power of two is at most the one before it. -/
theorem CharBuffer.Sized.le_power {exponent : Nat} (below : buffer.allocated < 2 ^ (exponent + 1)) :
    buffer.allocated ≤ 2 ^ exponent := by
  rcases sized.doubled with none | ⟨power, isPower⟩
  · omega
  · rw [isPower] at below ⊢
    exact Nat.pow_le_pow_right (by decide)
      (Nat.le_of_lt_succ ((Nat.pow_lt_pow_iff_right (by decide)).mp below))

end Sized

theorem allocate_le (buffer : CharBuffer) (count : Nat) : (buffer.allocate count).allocated ≤
    max (max buffer.allocated 32) (2 * (buffer.data.length + count)) := by
  unfold CharBuffer.allocate
  dsimp only
  split
  · omega
  · have : vectorInitialSize = 32 := rfl
    refine (doubleUntil_le _ _ _).trans ?_
    split <;> omega

/-- The room behind both allocations is less than the range of an `int`. -/
theorem CharBuffer.Sized.room_lt (sized : buffer.Sized) {count : Nat}
    (small : buffer.allocated ≤ intMax) (short : count ≤ intMax) :
    ((buffer.allocate 4).allocate count).allocated - buffer.data.length < 2 ^ 32 := by
  have used := sized.used
  have first := allocate_le buffer 4
  have second := allocate_le (buffer.allocate 4) count
  rw [allocate_data] at second
  unfold intMax at small short
  have half : buffer.allocated ≤ 2 ^ 30 := sized.le_power (by omega)
  have below : (buffer.allocate 4).allocated ≤ 2 ^ 31 := (sized.allocate 4).le_power (by omega)
  have whole : ((buffer.allocate 4).allocate count).allocated ≤ 2 ^ 32 :=
    ((sized.allocate 4).allocate count).le_power (by omega)
  omega

theorem snprintf_take {size : Nat} {text : List UInt8} (fits : text.length < size) :
    (snprintf size text).take text.length = text := by
  rw [snprintf, if_neg (by omega), List.take_of_length_le (i := size - 1) (by omega),
    List.take_left]

/-- As long as the text and the buffer can be counted in an `int`, it makes no difference. -/
theorem printNumbersInt_eq (sized : buffer.Sized) (small : buffer.allocated ≤ intMax)
    {text : List UInt8} (something : 2 ≤ text.length) (short : text.length ≤ intMax) :
    buffer.printNumbersInt text = .ok (buffer.printNumbers text) := by
  obtain ⟨isAllowed, isSize⟩ := (@le_sizeOfInt (buffer.allocated - buffer.data.length)
    (by unfold intMax at small; omega)).2 (by omega)
  have returns : snprintfReturns text = text.length := if_pos short
  unfold CharBuffer.printNumbersInt CharBuffer.printNumbers
  rw [returns, isAllowed]
  dsimp only
  rw [Int.toNat_natCast, assert_true (by simpa using something), ok_bind]
  by_cases more : buffer.allocated - buffer.data.length < text.length
  · rw [if_pos (by omega), if_pos more]
    have room := lt_allocate (buffer.allocate 4) text.length
    have enough := (le_sizeOfInt (sized.room_lt small short)).1
    rw [allocate_data] at room
    simp only [allocate_data, Except.ok.injEq, CharBuffer.mk.injEq, List.append_right_inj, and_true]
    rw [snprintf_take (by omega), snprintf_take (by omega)]
  · rw [if_neg (by omega), if_neg more]
    dsimp only
    rw [← isAllowed, isSize]

/-- In any case what is written is allocated. -/
theorem CharBuffer.Sized.printNumbersInt {after : CharBuffer} (sized : buffer.Sized)
    {text : List UInt8} (returns : buffer.printNumbersInt text = .ok after) : after.Sized := by
  unfold CharBuffer.printNumbersInt at returns
  dsimp only at returns
  by_cases more : snprintfReturns text > intOfSize (buffer.allocated - buffer.data.length)
  · rw [if_pos more] at returns
    obtain ⟨_, -, isAfter⟩ := bind_eq_ok.mp returns
    cases isAfter
    exact (sized.allocate 4).write (by rw [List.length_take]; omega)
  · rw [if_neg more] at returns
    obtain ⟨_, -, isAfter⟩ := bind_eq_ok.mp returns
    cases isAfter
    refine ⟨?_, (sized.allocate 4).doubled⟩
    have used := sized.used
    have grows : buffer.allocated ≤ (buffer.allocate 4).allocated := by
      have room := lt_allocate buffer 4
      by_cases enough : buffer.data.length + 4 < buffer.allocated
      · rw [CharBuffer.allocate, if_pos enough]
      · omega
    have fits : snprintfReturns text ≤ (buffer.allocated - buffer.data.length : Nat) := by
      refine (Int.not_lt.mp more).trans ?_
      unfold intOfSize Int.bmod
      dsimp only
      omega
    rw [List.length_append, allocate_data, List.length_take]
    dsimp only
    omega

/-- A text that is too long for an `int` ends the program. -/
theorem printNumbersInt_long (small : buffer.allocated ≤ intMax) {text : List UInt8}
    (long : ¬ text.length ≤ intMax) :
    buffer.printNumbersInt text = .error (.assertion "printed >= 2") := by
  obtain ⟨isAllowed, -⟩ := (@le_sizeOfInt (buffer.allocated - buffer.data.length)
    (by unfold intMax at small; omega)).2 (by omega)
  unfold CharBuffer.printNumbersInt
  rw [show snprintfReturns text = -1 from if_neg long, isAllowed]
  rfl

/-- A call of `printLineNumbers` appends exactly its text to the buffer of the present line. -/
structure Buffers.AppendsNumbers (width oldLineNumber newLineNumber : Nat)
    (before after : Buffers contextLines) : Prop where
  appended : after.current.data =
    before.current.data ++ lineNumbersText width oldLineNumber newLineNumber
  others : ∀ index, index ≠ before.bufferIndex →
    after.contextBuffers.get index = before.contextBuffers.get index
  state : after.state = before.state
  bufferIndex : after.bufferIndex = before.bufferIndex
  afterContextLines : after.afterContextLines = before.afterContextLines
  output : after.output = before.output

theorem setCurrent_current (buffer : CharBuffer) : (buffers.setCurrent buffer).current = buffer :=
  Vector.getElem_set_self buffers.bufferIndex.2

theorem setCurrent_other (buffer : CharBuffer) {index : Fin (contextLines + 1)}
    (other : index ≠ buffers.bufferIndex) :
    (buffers.setCurrent buffer).contextBuffers.get index = buffers.contextBuffers.get index :=
  Vector.getElem_set_ne buffers.bufferIndex.2 index.2 fun same => other (Fin.ext same.symm)

theorem lineNumbersText_length (width oldLineNumber newLineNumber : Nat) :
    2 ≤ (lineNumbersText width oldLineNumber newLineNumber).length := by
  simp only [lineNumbersText, List.length_append, List.length_singleton]
  omega

theorem appendsNumbers_iff {buffers : Buffers contextLines} {oldLineNumber newLineNumber : Nat} :
    Buffers.AppendsNumbers width oldLineNumber newLineNumber buffers (buffers.setCurrent buffer) ↔
      buffer.data =
        buffers.current.data ++ lineNumbersText width oldLineNumber newLineNumber := by
  constructor
  · intro appends
    rw [← appends.appended, setCurrent_current]
  · intro appended
    exact
      { appended := by rw [setCurrent_current, appended]
        others := fun _ => setCurrent_other buffers _
        state := rfl
        bufferIndex := rfl
        afterContextLines := rfl
        output := rfl }

/-! ### What was written before -/

section Behind

variable (output : List UInt8)

/-- The same buffers behind an earlier output. -/
def Buffers.behind : Buffers contextLines := { buffers with output := output ++ buffers.output }

theorem put_behind (text : List UInt8) :
    (buffers.behind output).put text = (buffers.put text).behind output := by
  simp only [Buffers.put, Buffers.behind, List.append_assoc]

theorem reveal_behind : (buffers.behind output).reveal = buffers.reveal.behind output :=
  congrArg (fun buffers : Buffers contextLines => { buffers with state := .printingChanged })
    (put_behind buffers output buffers.heldText)

theorem endLine_behind : (buffers.behind output).endLine = buffers.endLine.behind output := by
  obtain ⟨contextBuffers, state, bufferIndex, afterContextLines, before⟩ := buffers
  cases state with
  | printingChanged | printingAfterContext =>
    dsimp only [Buffers.endLine, Buffers.behind]
    split <;> rfl
  | preBuffering | buffering | preBufferingInitial | bufferingInitial => rfl

/-- Text that goes into the buffer of the present line, or is written. -/
theorem hold_behind (text : List UInt8) (hold : CharBuffer → CharBuffer) :
    (if (buffers.behind output).state.buffers then
        (buffers.behind output).setCurrent (hold (buffers.behind output).current)
      else (buffers.behind output).put text) =
      (if buffers.state.buffers then buffers.setCurrent (hold buffers.current)
        else buffers.put text).behind output := by
  show (if buffers.state.buffers then _ else _) = _
  rw [put_behind]
  split <;> rfl

/-- What was written before is not looked at. -/
theorem perform_behind (context : Bool) (width : Nat) (emission : Emission) :
    (buffers.behind output).perform context width emission =
      (buffers.perform context width emission).behind output := by
  cases context with
  | false => cases emission <;> exact put_behind buffers output _
  | true =>
    cases emission with
    | addchar c common =>
      have revealed : (if common then buffers.behind output else (buffers.behind output).reveal) =
          (if common then buffers else buffers.reveal).behind output := by
        cases common with
        | true => rfl
        | false => exact reveal_behind buffers output
      have held := hold_behind (if common then buffers else buffers.reveal) output [c]
        (CharBuffer.append · c)
      simp only [Buffers.perform, addchar, Bool.not_true, Bool.false_eq_true, if_false]
      rw [revealed, held, endLine_behind]
      exact (apply_ite (Buffers.behind · output) (c = 10) _ _).symm
    | writeString string => exact hold_behind buffers output string (CharBuffer.copy · string)
    | printLineNumbers oldLineNumber newLineNumber =>
      exact hold_behind buffers output _ (CharBuffer.printNumbers · _)
    | puts string => exact put_behind buffers output _

theorem performAll_behind (context : Bool) (width : Nat) (emissions : List Emission) :
    (buffers.behind output).performAll context width emissions =
      (buffers.performAll context width emissions).behind output := by
  induction emissions generalizing buffers with
  | nil => rfl
  | cons emission emissions inductionHypothesis =>
    rw [Buffers.performAll, List.foldl_cons, perform_behind]
    exact inductionHypothesis (buffers.perform context width emission)

end Behind

/-! ### Runs of output calls -/

/-- All buffers of the ring. -/
def Buffers.Sized : Prop :=
  ∀ index, (buffers.contextBuffers.get index).Sized

section Runs

variable {buffers : Buffers contextLines} (sized : buffers.Sized)

include sized

theorem Buffers.Sized.current : buffers.current.Sized := sized buffers.bufferIndex

theorem Buffers.Sized.setCurrent (isSized : buffer.Sized) : (buffers.setCurrent buffer).Sized := by
  intro index
  by_cases same : index = buffers.bufferIndex
  · subst same
    show (buffers.setCurrent buffer).current.Sized
    rw [setCurrent_current]
    exact isSized
  · rw [setCurrent_other buffers buffer same]
    exact sized index

theorem Buffers.Sized.endLine : buffers.endLine.Sized := by
  have clears : ∀ moved : Buffers contextLines, moved.contextBuffers = buffers.contextBuffers →
      (moved.setCurrent { moved.current with data := [] }).Sized := by
    intro moved same
    have isSized : moved.Sized := fun index => by
      rw [same]
      exact sized index
    exact isSized.setCurrent isSized.current.clear
  unfold Buffers.endLine
  refine clears _ ?_
  cases buffers.state with
  | printingChanged => dsimp only; split <;> rfl
  | printingAfterContext => dsimp only; split <;> rfl
  | preBuffering | buffering | preBufferingInitial | bufferingInitial => rfl

/-- A call that puts its text into the buffer of the present line, or writes it. -/
theorem Buffers.Sized.store {buffer : CharBuffer} (isSized : buffer.Sized) (text : List UInt8) :
    (if buffers.state.buffers then buffers.setCurrent buffer else buffers.put text).Sized := by
  split
  · exact sized.setCurrent isSized
  · exact sized

theorem Buffers.Sized.performInt {emission : Emission} {after : Buffers contextLines}
    (returns : buffers.performInt width emission = .ok after) : after.Sized := by
  cases emission with
  | addchar c common =>
    cases returns
    have revealed : (if common then buffers else buffers.reveal).Sized := by
      cases common <;> exact sized
    have stored := revealed.store (revealed.current.append c) [c]
    show Buffers.Sized (ite _ _ _)
    split
    · exact stored.endLine
    · exact stored
  | writeString string =>
    cases returns
    exact sized.store (sized.current.write le_rfl) string
  | printLineNumbers oldLineNumber newLineNumber =>
    unfold Buffers.performInt printLineNumbersInt at returns
    dsimp only at returns
    split at returns
    · obtain ⟨buffer, formats, isAfter⟩ := bind_eq_ok.mp returns
      cases isAfter
      exact sized.setCurrent (sized.current.printNumbersInt formats)
    · cases returns
      exact sized
  | puts string =>
    cases returns
    exact sized

theorem Buffers.Sized.performAll {emissions : List Emission} {after : Buffers contextLines}
    (returns : emissions.foldlM (Buffers.performInt width) buffers = .ok after) : after.Sized := by
  induction emissions generalizing buffers with
  | nil =>
    cases returns
    exact sized
  | cons emission rest inductionHypothesis =>
    rw [List.foldlM_cons] at returns
    obtain ⟨next, performs, returns⟩ := bind_eq_ok.mp returns
    exact inductionHypothesis (sized.performInt performs) returns

end Runs

theorem initialBuffers_sized (contextLines : Nat) : (initialBuffers contextLines).Sized := by
  intro index
  have empty : (initialBuffers contextLines).contextBuffers.get index = .empty :=
    Vector.getElem_replicate index.2
  rw [empty]
  exact ⟨le_rfl, Or.inl rfl⟩

end Buffers

/-- In every state that a run of output calls reaches with context lines, in which the buffer of the
present line can be counted in an `int`: line numbers that go into the buffer arrive whole exactly
if their text can be counted in an `int`, too, and does not just fill the room that is left. -/
theorem printLineNumbers_appends_iff {contextLines width : Nat} {emissions : List Emission}
    {buffers : Buffers contextLines}
    (reached : emissions.foldlM (Buffers.performInt width) (initialBuffers contextLines) =
      .ok buffers)
    (buffering : buffers.state.buffers = true) (small : buffers.current.allocated ≤ intMax)
    (oldLineNumber newLineNumber : Nat) :
    (∃ after, printLineNumbersInt width oldLineNumber newLineNumber buffers = .ok after ∧
        Buffers.AppendsNumbers width oldLineNumber newLineNumber buffers after) ↔
      (lineNumbersText width oldLineNumber newLineNumber).length ≤ intMax ∧
        buffers.current.allocated - buffers.current.data.length ≠
          (lineNumbersText width oldLineNumber newLineNumber).length := by
  have sized := ((initialBuffers_sized contextLines).performAll reached).current
  unfold printLineNumbersInt
  rw [if_pos buffering]
  by_cases short : (lineNumbersText width oldLineNumber newLineNumber).length ≤ intMax
  · rw [printNumbersInt_eq sized small (lineNumbersText_length _ _ _) short, ok_bind]
    simp only [Except.ok.injEq, exists_eq_left', appendsNumbers_iff, short, true_and]
    -- The text ends in a blank, so the terminator cannot pass for its last character.
    obtain ⟨front, isText⟩ : ∃ front,
      lineNumbersText width oldLineNumber newLineNumber = front ++ [0x20] := ⟨_, rfl⟩
    rw [isText, printNumbers_data_eq_iff buffers.current (by decide), List.length_append,
      List.length_singleton]
  · rw [printNumbersInt_long small short]
    exact ⟨fun ⟨_, fails, _⟩ => by contradiction, fun holds => absurd holds.1 short⟩

theorem printLineNumbers_appends_first :
    ∃ after, printLineNumbersInt 4 1 1 (initialBuffers 2) = .ok after ∧
      Buffers.AppendsNumbers 4 1 1 (initialBuffers 2) after :=
  (@printLineNumbers_appends_iff 2 4 [] _ rfl (by decide) (by decide) 1 1).mpr (by decide)

/-- A changed line starts with a colour reset of four bytes, and numbers of thirteen columns fill
the rest of a buffer of thirty-two: the blank that ends them is overwritten. -/
theorem printLineNumbers_loses_blank :
    let buffers := (initialBuffers 1).perform true 13 (.writeString resetColor)
    [.writeString resetColor].foldlM (Buffers.performInt 13) (initialBuffers 1) = .ok buffers ∧
      buffers.state.buffers = true ∧
      (printLineNumbersInt 13 1 1 buffers).map (fun after => after.current.data) =
        .ok (resetColor ++ (lineNumbersText 13 1 1).dropLast ++ [0]) ∧
      ¬ ∃ after, printLineNumbersInt 13 1 1 buffers = .ok after ∧
        Buffers.AppendsNumbers 13 1 1 buffers after := by
  intro buffers
  have contents : (printLineNumbersInt 13 1 1 buffers).map (fun after => after.current.data) =
      .ok (resetColor ++ (lineNumbersText 13 1 1).dropLast ++ [0]) := by decide +kernel
  refine ⟨rfl, by decide, contents, ?_⟩
  rintro ⟨after, returns, appends⟩
  rw [returns] at contents
  exact absurd (appends.appended.symm.trans (Except.ok.inj contents)) (by decide +kernel)

end Dwdiff
