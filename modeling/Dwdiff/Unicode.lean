/-
This file models the conversions of `unicode.c`: the UTF-8 reader `getuc` with
its error codes, the filter `getucFiltered` that joins surrogates, the UTF-8
writer `convertToUTF8`, and the three pieces of surrogate arithmetic that split
a code point into UTF-16 units and join the units again.

A `UChar32` is a signed 32-bit integer and is kept as an `Int`; a bit mask sees
its two's complement form.
-/

import Dwdiff.Stream
import Mathlib.Algebra.Group.Int.Defs
import Mathlib.Algebra.Group.Nat.Defs

namespace Dwdiff

/-- `value & mask` on a 32-bit `value`. -/
def land (value : Int) (mask : Nat) : Nat :=
  (value % 2 ^ 32).toNat &&& mask

/-! ### Reading UTF-8 -/

def ueof : Int := -1

def ueoverlong : Int := -2

def ueinvalid : Int := -3

def uetoolarge : Int := -4

def replacementCharacter : Int := 0xFFFD

/-- The codes that `getuc` returns for bytes that are no character. -/
def IsError (value : Int) : Prop :=
  value = ueoverlong ∨ value = ueinvalid ∨ value = uetoolarge

section Readers

variable {Source : Type} [StreamVtable Source]

/-- The part of `getuc` after the lead byte: `bytesLeft` continuation bytes are folded into
`retval`, and the result is checked against the `least` value of its length. -/
def getucContinue (least : Nat) :
    Nat → Nat → Stream Source → Except Failure (Int × Stream Source)
  | 0, retval, stream =>
    if retval < least then .ok (ueoverlong, stream)
    else if retval > 0x10FFFF then .ok (uetoolarge, stream)
    else .ok (retval, stream)
  | bytesLeft + 1, retval, stream => do
    let (char, stream) ← StreamVtable.getChar stream
    match char with
    | none => .ok (ueinvalid, stream)
    | some char =>
      if char.toNat &&& 0xC0 ≠ 0x80 then do
        let stream ← StreamVtable.ungetChar stream char
        .ok (ueinvalid, stream)
      else
        getucContinue least bytesLeft (retval <<< 6 ||| char.toNat &&& 0x3F) stream

/-- `getuc`: one UTF-8 character, or one of the error codes. -/
def getuc (stream : Stream Source) : Except Failure (Int × Stream Source) := do
  let (char, stream) ← StreamVtable.getChar stream
  match char with
  | none => .ok (ueof, stream)
  | some char =>
    let c := char.toNat
    if c ≤ 127 then .ok (c, stream)
    else if c ≤ 191 then .ok (ueinvalid, stream)
    else if c ≤ 193 then .ok (ueoverlong, stream)
    else if c ≤ 223 then getucContinue 0x80 1 (c &&& 0x1F) stream
    else if c ≤ 239 then getucContinue 0x800 2 (c &&& 0x0F) stream
    else if c ≤ 244 then getucContinue 0x10000 3 (c &&& 0x07) stream
    else .ok (uetoolarge, stream)

/-- What `getucFiltered` does with a character once it has one: a surrogate pair becomes one code
point, and what is not a character becomes the replacement character. -/
def filterUc (c : Int) (stream : Stream Source) : Except Failure (Int × Stream Source) :=
  if c < 0 then
    .ok (if c = ueof then ueof else replacementCharacter, stream)
  else if land c 0xF800 = 0xD800 then
    -- A low surrogate on its own is replaced; a high one waits for the next character.
    if land c 0xDC00 = 0xDC00 then .ok (replacementCharacter, stream)
    else do
      let (clow, stream) ← getuc stream
      if land clow 0xFC00 ≠ 0xDC00 then
        .ok (replacementCharacter, { stream with nextChar := clow })
      else
        .ok (clow + c * 2 ^ 10 + 0x10000 - 0xD800 * 2 ^ 10 - 0xDC00, stream)
  else
    .ok (c, stream)

def getucFiltered (stream : Stream Source) : Except Failure (Int × Stream Source) := do
  let (c, stream) ←
    if stream.nextChar ≥ 0 then .ok (stream.nextChar, { stream with nextChar := -1 })
    else getuc stream
  filterUc c stream

end Readers

/-- The results of `count` successive calls of a reader. -/
def calls (read : Stream → Except Failure (Int × Stream)) :
    Nat → Stream → Except Failure (List Int)
  | 0, _ => .ok []
  | count + 1, stream => do
    let (value, stream) ← read stream
    let values ← calls read count stream
    .ok (value :: values)

/-! ### Writing UTF-8 -/

/-- The loop of `convertToUTF8` that fills the buffer from its last byte. -/
def convertToUTF8Fill : Nat → Int → List UInt8 → List UInt8
  | 0, _, buffer => buffer
  | index + 1, c, buffer =>
    convertToUTF8Fill index (c / 2 ^ 6) (UInt8.ofNat (land c 0x3F ||| 0x80) :: buffer)

/-- `convertToUTF8`: the bytes written to the buffer. -/
def convertToUTF8 (c : Int) : List UInt8 :=
  let lead (bytes : Nat) : List UInt8 :=
    match convertToUTF8Fill bytes c [] with
    | [] => []
    | first :: rest => (first ||| UInt8.ofNat (0xF0 <<< (4 - bytes))) :: rest
  if c > 0x10000 then lead 4
  else if c > 0x800 then lead 3
  else if c > 0x80 then lead 2
  else [UInt8.ofNat (land c 0xFF)]

/-- `filteredConvertToUTF8`: the bytes written and the new value of `*highSurrogate`. -/
def filteredConvertToUTF8 (c : Int) (highSurrogate : Int) :
    Except Failure (List UInt8 × Int) :=
  if land c 0xFC00 = 0xD800 then .ok ([], c)
  else if land c 0xFC00 = 0xDC00 then do
    assert (highSurrogate != 0) "*highSurrogate != 0"
    .ok (convertToUTF8 (c + highSurrogate * 2 ^ 10 + 0x10000 - 0xD800 * 2 ^ 10 - 0xDC00), 0)
  else .ok (convertToUTF8 c, highSurrogate)

/-- Feeding the units of a UTF-16 buffer to `filteredConvertToUTF8`, as the writers do. -/
def filteredConvertAll : List UInt16 → Int → Except Failure (List UInt8 × Int)
  | [], highSurrogate => .ok ([], highSurrogate)
  | unit :: units, highSurrogate => do
    let (bytes, highSurrogate) ← filteredConvertToUTF8 unit.toNat highSurrogate
    let (rest, highSurrogate) ← filteredConvertAll units highSurrogate
    .ok (bytes ++ rest, highSurrogate)

/-! ### UTF-16 buffers -/

/-- `addUCS4ToUTF16Buffer`. Both units are truncated to a `UChar`. -/
def addUCS4ToUTF16Buffer (buffer : List UInt16) (c : Int) : List UInt16 :=
  if c > 0x10000 then
    buffer ++ [UInt16.ofInt (0xD800 - (0x10000 / 2 ^ 10) + c / 2 ^ 10),
      UInt16.ofNat (0xDC00 ||| land c 0x3FF)]
  else
    buffer ++ [UInt16.ofInt c]

/-- The loop of `UTF16CharCondition`: it stops at the first code point that fails. -/
def utf16CharCondition (condition : Nat → Bool) : List UInt16 → Except Failure Bool
  | [] => .ok true
  | unit :: units =>
    if unit.toNat &&& 0xFC00 = 0xD800 then
      match units with
      | [] => .error (.assertion "i + 1 < buffer->used")
      | low :: units =>
        let c := (unit.toNat &&& 0x3FF) <<< 10 + 0x10000 + (low.toNat &&& 0x3FF)
        if condition c then utf16CharCondition condition units else .ok false
    else if condition unit.toNat then utf16CharCondition condition units
    else .ok false

/-- The values `c` takes in the loop of `UTF16CharCondition` while its condition holds. -/
def utf16CodePoints : List UInt16 → Except Failure (List Nat)
  | [] => .ok []
  | unit :: units =>
    if unit.toNat &&& 0xFC00 = 0xD800 then
      match units with
      | [] => .error (.assertion "i + 1 < buffer->used")
      | low :: units => do
        let rest ← utf16CodePoints units
        .ok (((unit.toNat &&& 0x3FF) <<< 10 + 0x10000 + (low.toNat &&& 0x3FF)) :: rest)
    else do
      let rest ← utf16CodePoints units
      .ok (unit.toNat :: rest)

end Dwdiff
