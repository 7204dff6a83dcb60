/-
This file settles what survives the UTF-8 and UTF-16 conversions of `unicode.c`.
A Unicode scalar value is a `Char`, and its standard encoding is the library's
`String.utf8EncodeChar`. The reader `getuc` decodes every standard encoding. The
writer `convertToUTF8` produces the standard encoding except at the first value
of each longer form, where its comparison is strict; the UTF-16 splitter has the
same slip at the first supplementary value; and the surrogate test of
`getucFiltered` sees only the low sixteen bits of a code point.
-/

import Dwdiff.Cluster
import Dwdiff.Library.BitMask

namespace Dwdiff

/-! ### Masks as arithmetic -/

theorem land_of_nat (value mask : Nat) (small : value < 2 ^ 32) :
    land value mask = value &&& mask := by
  unfold land
  have wide : ((value : Int) % 2 ^ 32).toNat = value := by omega
  rw [wide]

theorem and_C0 (value : Nat) : value &&& 0xC0 = value / 64 % 4 * 64 :=
  BitMask.and_field value 2 6

theorem and_3F (value : Nat) : value &&& 0x3F = value % 64 :=
  BitMask.and_low value 6

theorem and_3FF (value : Nat) : value &&& 0x3FF = value % 1024 :=
  BitMask.and_low value 10

theorem and_F800 (value : Nat) : value &&& 0xF800 = value / 2048 % 32 * 2048 :=
  BitMask.and_field value 5 11

theorem and_FC00 (value : Nat) : value &&& 0xFC00 = value / 1024 % 64 * 1024 :=
  BitMask.and_field value 6 10

/-- The mask `0xDC00` has a gap at bit 13. -/
theorem and_DC00 (value : Nat) :
    value &&& 0xDC00 = value / 16384 % 4 * 16384 + value / 1024 % 8 * 1024 := by
  have split : value &&& 0xDC00 = value &&& 0xC000 ||| value &&& 0x1C00 := by
    rw [← Nat.and_or_distrib_left]
    rfl
  have high : value &&& 0xC000 = value / 16384 % 4 * 16384 := BitMask.and_field value 2 14
  have low : value &&& 0x1C00 = value / 1024 % 8 * 1024 := BitMask.and_field value 3 10
  rw [split, high, low]
  exact BitMask.or_field (value / 16384 % 4) _ 14 (by omega)

theorem toNat_ofNat_byte (value : Nat) (small : value < 256) :
    (UInt8.ofNat value).toNat = value := by
  rw [UInt8.toNat_ofNat']
  omega

/-! ### The reader decodes the standard encoding -/

/-- One continuation byte is folded into the value read so far. -/
theorem getucContinue_succ (least bytesLeft retval tail : Nat) (stream : Stream)
    (rest : List UInt8) (small : tail < 64)
    (starts : stream.remaining = UInt8.ofNat (tail + 0x80) :: rest) :
    getucContinue least (bytesLeft + 1) retval stream =
      getucContinue least bytesLeft (retval * 64 + tail)
        (stream.advance [UInt8.ofNat (tail + 0x80)] rest) := by
  have byte : (UInt8.ofNat (tail + 0x80)).toNat = tail + 0x80 := toNat_ofNat_byte _ (by omega)
  rw [getucContinue, vtable_getChar_cons stream _ rest starts, ok_bind]
  simp only [byte, and_C0, and_3F]
  rw [if_neg (by omega), show (tail + 0x80) % 64 = tail by omega,
    BitMask.shiftLeft_or retval tail 6 small]
  rfl

theorem getucContinue_zero (least retval : Nat) (stream : Stream) (enough : least ≤ retval)
    (small : retval ≤ 0x10FFFF) : getucContinue least 0 retval stream = .ok (retval, stream) := by
  rw [getucContinue, if_neg (by omega), if_neg (by omega)]

/-- The shortest UTF-8 form of a number up to 0x10FFFF, surrogates included. -/
def shortestForm (code : Nat) : List UInt8 :=
  if code ≤ 0x7F then [UInt8.ofNat code]
  else if code ≤ 0x7FF then
    [UInt8.ofNat (code / 64 % 32 + 0xC0), UInt8.ofNat (code % 64 + 0x80)]
  else if code ≤ 0xFFFF then
    [UInt8.ofNat (code / 4096 % 16 + 0xE0), UInt8.ofNat (code / 64 % 64 + 0x80),
      UInt8.ofNat (code % 64 + 0x80)]
  else
    [UInt8.ofNat (code / 262144 % 8 + 0xF0), UInt8.ofNat (code / 4096 % 64 + 0x80),
      UInt8.ofNat (code / 64 % 64 + 0x80), UInt8.ofNat (code % 64 + 0x80)]

theorem utf8EncodeChar_eq (char : Char) : String.utf8EncodeChar char = shortestForm char.toNat :=
  rfl

/-- `getuc` reads back the shortest form of every code, and leaves the stream right behind it. -/
theorem getuc_shortestForm (code : Nat) (bound : code ≤ 0x10FFFF) (stream : Stream)
    (rest : List UInt8) (starts : stream.remaining = shortestForm code ++ rest) :
    getuc stream = .ok (code, stream.advance (shortestForm code) rest) := by
  unfold shortestForm at starts ⊢
  split at starts
  · rename_i one
    rw [if_pos one, getuc, vtable_getChar_cons stream _ rest starts, ok_bind]
    have lead : (UInt8.ofNat code).toNat = code := toNat_ofNat_byte _ (by omega)
    simp only [lead]
    rw [if_pos (by omega)]
  · rename_i one
    rw [if_neg one]
    split at starts
    · rename_i two
      rw [if_pos two, getuc, vtable_getChar_cons stream _ _ starts, ok_bind]
      have lead : (UInt8.ofNat (code / 64 % 32 + 0xC0)).toNat = code / 64 % 32 + 0xC0 :=
        toNat_ofNat_byte _ (by omega)
      simp only [lead]
      rw [if_neg (by omega), if_neg (by omega), if_neg (by omega), if_pos (by omega),
        show (code / 64 % 32 + 0xC0) &&& 0x1F = code / 64 by
          rw [show (0x1F : Nat) = 2 ^ 5 - 1 by rfl, BitMask.and_low]; omega,
        getucContinue_succ 0x80 0 _ (code % 64) _ rest (by omega) rfl,
        getucContinue_zero _ _ _ (by omega) (by omega), advance_advance]
      refine congrArg Except.ok (Prod.ext ?_ rfl)
      push_cast
      omega
    · rename_i two
      rw [if_neg two]
      split at starts
      · rename_i three
        rw [if_pos three, getuc, vtable_getChar_cons stream _ _ starts, ok_bind]
        have lead : (UInt8.ofNat (code / 4096 % 16 + 0xE0)).toNat = code / 4096 % 16 + 0xE0 :=
          toNat_ofNat_byte _ (by omega)
        simp only [lead]
        rw [if_neg (by omega), if_neg (by omega), if_neg (by omega), if_neg (by omega),
          if_pos (by omega),
          show (code / 4096 % 16 + 0xE0) &&& 0x0F = code / 4096 by
            rw [show (0x0F : Nat) = 2 ^ 4 - 1 by rfl, BitMask.and_low]; omega,
          getucContinue_succ 0x800 1 _ (code / 64 % 64) _ _ (by omega) rfl,
          getucContinue_succ 0x800 0 _ (code % 64) _ rest (by omega) rfl,
          getucContinue_zero _ _ _ (by omega) (by omega), advance_advance, advance_advance]
        refine congrArg Except.ok (Prod.ext ?_ rfl)
        push_cast
        omega
      · rename_i three
        rw [if_neg three, getuc, vtable_getChar_cons stream _ _ starts, ok_bind]
        have lead : (UInt8.ofNat (code / 262144 % 8 + 0xF0)).toNat = code / 262144 % 8 + 0xF0 :=
          toNat_ofNat_byte _ (by omega)
        simp only [lead]
        rw [if_neg (by omega), if_neg (by omega), if_neg (by omega), if_neg (by omega),
          if_neg (by omega), if_pos (by omega),
          show (code / 262144 % 8 + 0xF0) &&& 0x07 = code / 262144 by
            rw [show (0x07 : Nat) = 2 ^ 3 - 1 by rfl, BitMask.and_low]; omega,
          getucContinue_succ 0x10000 2 _ (code / 4096 % 64) _ _ (by omega) rfl,
          getucContinue_succ 0x10000 1 _ (code / 64 % 64) _ _ (by omega) rfl,
          getucContinue_succ 0x10000 0 _ (code % 64) _ rest (by omega) rfl,
          getucContinue_zero _ _ _ (by omega) (by omega), advance_advance, advance_advance,
          advance_advance]
        refine congrArg Except.ok (Prod.ext ?_ rfl)
        push_cast
        omega

theorem char_le (char : Char) : char.toNat ≤ 0x10FFFF := by
  have valid := char.valid
  simp only [UInt32.isValidChar, Nat.isValidChar] at valid
  show char.val.toNat ≤ 0x10FFFF
  omega

/-- `getuc` reads back the standard encoding of every scalar value, surrogates being no scalar
values, and leaves the stream right behind it. -/
theorem getuc_utf8EncodeChar (char : Char) (stream : Stream) (rest : List UInt8)
    (starts : stream.remaining = String.utf8EncodeChar char ++ rest) :
    getuc stream =
      .ok (char.toNat, stream.advance (String.utf8EncodeChar char) rest) := by
  rw [utf8EncodeChar_eq] at starts ⊢
  exact getuc_shortestForm char.toNat (char_le char) stream rest starts

theorem getuc_end (stream : Stream) (file : stream.kind = .file) (ends : stream.remaining = []) :
    getuc stream = .ok (ueof, { stream with source.eof := .hit }) := by
  rw [getuc, vtable_getChar, getChar_end stream file ends]
  rfl

/-- Every result of `getuc` is a code point or one of the four error codes. -/
theorem getuc_ge (stream next : Stream) (value : Int) (read : getuc stream = .ok (value, next)) :
    -4 ≤ value := by
  obtain ⟨-, -, -, -, least, -⟩ := (bytes_lawful.getuc trivial).of_ok read
  exact least

/-! ### Decoding valid text -/

theorem char_not_surrogate (char : Char) : char.toNat < 0xD800 ∨ 0xDFFF < char.toNat := by
  have valid := char.valid
  simp only [UInt32.isValidChar, Nat.isValidChar] at valid
  show char.val.toNat < 0xD800 ∨ 0xDFFF < char.val.toNat
  omega

theorem land_char (char : Char) (mask : Nat) : land char.toNat mask = char.toNat &&& mask :=
  land_of_nat _ _ (by have := char_le char; omega)

/-- A character that the surrogate mask does not catch is returned unchanged. -/
theorem getucFiltered_plain (char : Char) (stream : Stream) (rest : List UInt8)
    (fresh : stream.nextChar = -1)
    (starts : stream.remaining = String.utf8EncodeChar char ++ rest)
    (plain : land char.toNat 0xF800 ≠ 0xD800) :
    getucFiltered stream =
      .ok (char.toNat, stream.advance (String.utf8EncodeChar char) rest) := by
  unfold getucFiltered filterUc
  rw [if_neg (by rw [fresh]; decide), getuc_utf8EncodeChar char stream rest starts]
  simp only [bind, Except.bind]
  rw [if_neg (by omega), if_neg plain]

/-- A scalar value that the surrogate mask catches is never returned: it lies above `0xFFFF`,
so that joining it with whatever follows overshoots every code point. -/
theorem getucFiltered_masked (char : Char) (stream next : Stream) (rest : List UInt8) (value : Int)
    (fresh : stream.nextChar = -1)
    (starts : stream.remaining = String.utf8EncodeChar char ++ rest)
    (masked : land char.toNat 0xF800 = 0xD800)
    (read : getucFiltered stream = .ok (value, next)) : value ≠ char.toNat := by
  have field := masked
  rw [land_char, and_F800] at field
  have range := char_le char
  have scalar := char_not_surrogate char
  unfold getucFiltered filterUc at read
  rw [if_neg (by rw [fresh]; decide), getuc_utf8EncodeChar char stream rest starts] at read
  simp only [bind, Except.bind] at read
  rw [if_neg (by omega), if_pos masked] at read
  split at read
  · cases read
    simp only [replacementCharacter]
    omega
  · cases second : getuc (stream.advance (String.utf8EncodeChar char) rest) with
    | error failure => simp [second] at read
    | ok result =>
      obtain ⟨clow, after⟩ := result
      have low := getuc_ge _ _ _ second
      simp only [second] at read
      split at read
      · cases read
        simp only [replacementCharacter]
        omega
      · cases read
        omega

/-- The standard encoding of a text, as a file holds it. -/
def utf8Text (text : List Char) : List UInt8 :=
  text.flatMap String.utf8EncodeChar

/-- Reading a text back through a reader: one call for each character, and one that reports the
end. -/
def readsBack (read : Stream → Except Failure (Int × Stream)) (bytes : List UInt8)
    (text : List Char) : Prop :=
  calls read (text.length + 1) (newFileStream bytes) =
    .ok (text.map (fun char => (char.toNat : Int)) ++ [ueof])

theorem calls_succ_ok {read : Stream → Except Failure (Int × Stream)} {count : Nat}
    {stream next : Stream} {value : Int} (first : read stream = .ok (value, next))
    (values : List Int) (head : Int) :
    calls read (count + 1) stream = .ok (head :: values) ↔
      value = head ∧ calls read count next = .ok values := by
  simp only [calls, first, bind, Except.bind]
  cases calls read count next with
  | error failure => simp
  | ok rest => simp

theorem calls_succ_error {read : Stream → Except Failure (Int × Stream)} {count : Nat}
    {stream : Stream} {failure : Failure} (first : read stream = .error failure) :
    calls read (count + 1) stream = .error failure := by
  simp [calls, first, bind, Except.bind]

/-- The general shape of both round trips: a reader that gets every good character right, and
no bad one, reads a text back exactly when all its characters are good. -/
theorem readsBack_iff (read : Stream → Except Failure (Int × Stream))
    (encode : Char → List UInt8) (good : Char → Prop)
    (ends : ∀ stream : Stream, stream.kind = .file → stream.nextChar = -1 →
      stream.remaining = [] → ∃ next, read stream = .ok (ueof, next))
    (reads : ∀ (char : Char) (stream : Stream) (rest : List UInt8), stream.kind = .file →
      stream.nextChar = -1 → stream.remaining = encode char ++ rest → good char →
      read stream = .ok (char.toNat, stream.advance (encode char) rest))
    (misreads : ∀ (char : Char) (stream next : Stream) (rest : List UInt8) (value : Int),
      stream.kind = .file → stream.nextChar = -1 → stream.remaining = encode char ++ rest →
      ¬ good char → read stream = .ok (value, next) → value ≠ char.toNat) (text : List Char) :
    readsBack read (text.flatMap encode) text ↔ ∀ char ∈ text, good char := by
  have run (stream : Stream) (file : stream.kind = .file) (fresh : stream.nextChar = -1)
      (starts : stream.remaining = text.flatMap encode) :
      calls read (text.length + 1) stream =
          .ok (text.map (fun char => (char.toNat : Int)) ++ [ueof]) ↔
        ∀ char ∈ text, good char := by
    induction text generalizing stream with
    | nil =>
      obtain ⟨next, last⟩ := ends stream file fresh starts
      simp [calls, last, bind, Except.bind]
    | cons char text inductionHypothesis =>
      rw [List.flatMap_cons] at starts
      rw [List.map_cons, List.cons_append, List.length_cons, List.forall_mem_cons]
      by_cases kept : good char
      · rw [calls_succ_ok (reads char stream _ file fresh starts kept),
          inductionHypothesis (stream.advance (encode char) (text.flatMap encode)) file fresh rfl]
        simp [kept]
      · cases result : read stream with
        | error failure => simp [calls_succ_error result, kept]
        | ok pair =>
          obtain ⟨value, next⟩ := pair
          have wrong := misreads char stream next _ value file fresh starts kept result
          rw [calls_succ_ok result]
          simp [kept, wrong]
  exact run _ rfl rfl rfl

/-- Valid UTF-8 text is decoded without loss exactly when no character has its low sixteen bits
in the surrogate range. -/
theorem getucFiltered_readsBack_iff (text : List Char) :
    readsBack getucFiltered (utf8Text text) text ↔
      ∀ char ∈ text, land char.toNat 0xF800 ≠ 0xD800 := by
  refine readsBack_iff getucFiltered String.utf8EncodeChar
    (fun char => land char.toNat 0xF800 ≠ 0xD800) ?_ ?_ ?_ text
  · intro stream file fresh ends
    refine ⟨{ stream with source.eof := .hit }, ?_⟩
    simp only [getucFiltered, filterUc, getuc_end stream file ends, fresh, bind, Except.bind]
    rfl
  · intro char stream rest _ fresh starts plain
    exact getucFiltered_plain char stream rest fresh starts plain
  · intro char stream next rest value _ fresh starts masked read
    exact getucFiltered_masked char stream next rest value fresh starts (by simpa using masked) read

/-- U+1D800, a Sutton SignWriting character, is decoded as the replacement character. -/
theorem getucFiltered_loses_signwriting :
    ¬ readsBack getucFiltered (utf8Text [Char.ofNat 0x1D800]) [Char.ofNat 0x1D800] := by
  unfold readsBack
  decide

/-! ### Writing and reading UTF-8 -/

/-- The first code point of each longer form, where `convertToUTF8` compares with `>`. -/
def misencoded (code : Nat) : Prop :=
  code = 0x80 ∨ code = 0x800 ∨ code = 0x10000

instance (code : Nat) : Decidable (misencoded code) :=
  inferInstanceAs (Decidable (_ ∨ _ ∨ _))

theorem continuationByte (value : Nat) (small : value < 2 ^ 32) :
    UInt8.ofNat (land value 0x3F ||| 0x80) = UInt8.ofNat (value % 64 + 0x80) := by
  rw [land_of_nat _ _ small, and_3F, Nat.or_comm]
  refine congrArg UInt8.ofNat ?_
  have joined : 128 ||| value % 64 = 2 * 2 ^ 6 + value % 64 :=
    BitMask.or_field 2 (value % 64) 6 (by omega)
  omega

/-- A lead byte: the marker `head` is put over the field `value` and the bit already set. -/
theorem leadByte (value head shifted : Nat) (field : head = 4 * 64 - 64 ∨ head = 4 * 64 - 32 ∨
    head = 4 * 64 - 16) (small : value < 256 - head) (byte : shifted % 256 = head) :
    UInt8.ofNat (value % 64 + 0x80) ||| UInt8.ofNat shifted = UInt8.ofNat (value + head) := by
  rw [← UInt8.toNat_inj, UInt8.toNat_or, UInt8.toNat_ofNat', UInt8.toNat_ofNat',
    UInt8.toNat_ofNat', byte]
  have below : value < 64 := by omega
  rw [Nat.mod_eq_of_lt below, Nat.mod_eq_of_lt (by omega), Nat.mod_eq_of_lt (by omega)]
  rcases field with rfl | rfl | rfl
  · revert value; decide
  · revert value; decide
  · revert value; decide

theorem div_cast (value divisor : Nat) :
    (value : Int) / (divisor : Int) = (value / divisor : Nat) :=
  (Int.natCast_ediv value divisor).symm

/-- Off the three slips the writer produces the standard encoding. -/
theorem convertToUTF8_standard (char : Char) (good : ¬ misencoded char.toNat) :
    convertToUTF8 char.toNat = String.utf8EncodeChar char := by
  have bound := char_le char
  have value : char.val.toNat = char.toNat := rfl
  unfold misencoded at good
  unfold String.utf8EncodeChar convertToUTF8
  simp only [value]
  generalize char.toNat = code at *
  have shift (step : Nat) : ((step : Nat) : Int) / 2 ^ 6 = ((step / 64 : Nat) : Int) := by
    exact div_cast step 64
  by_cases one : code ≤ 0x7F
  · rw [if_neg (by omega), if_neg (by omega), if_neg (by omega), if_pos one,
      land_of_nat _ _ (by omega), show (0xFF : Nat) = 2 ^ 8 - 1 by rfl, BitMask.and_low,
      Nat.mod_eq_of_lt (by omega)]
  · rw [if_neg one]
    by_cases two : code ≤ 0x7FF
    · rw [if_neg (by omega), if_neg (by omega), if_pos (by omega), if_pos two]
      simp only [convertToUTF8Fill, shift]
      rw [continuationByte _ (by omega), continuationByte _ (by omega),
        leadByte _ 0xC0 _ (by decide) (by omega) (by decide),
        show code / 64 % 32 = code / 64 by omega]
    · rw [if_neg two]
      by_cases three : code ≤ 0xFFFF
      · rw [if_neg (by omega), if_pos (by omega), if_pos three]
        simp only [convertToUTF8Fill, shift]
        rw [continuationByte _ (by omega), continuationByte _ (by omega),
          continuationByte _ (by omega), leadByte _ 0xE0 _ (by decide) (by omega) (by decide),
          show code / 64 / 64 = code / 4096 % 16 by omega]
      · rw [if_neg three, if_pos (by omega)]
        simp only [convertToUTF8Fill, shift]
        rw [continuationByte _ (by omega), continuationByte _ (by omega),
          continuationByte _ (by omega), continuationByte _ (by omega),
          leadByte _ 0xF0 _ (by decide) (by omega) (by decide),
          show code / 64 / 64 / 64 = code / 262144 % 8 by omega,
          show code / 64 / 64 = code / 4096 by omega]

/-- A continuation sequence whose bits so far are all zero cannot reach its least value with
one byte left. -/
theorem getucContinue_overlong (least : Nat) (long : 64 ≤ least) (stream next : Stream)
    (value : Int) (read : getucContinue least 1 0 stream = .ok (value, next)) : value < 0 := by
  rw [getucContinue] at read
  obtain ⟨⟨_ | char, after⟩, -, read⟩ := bind_eq_ok.mp read
  · cases read; decide
  · dsimp only at read
    split at read
    · cases pushed : StreamVtable.ungetChar after char with
      | error failure => simp [pushed, bind, Except.bind] at read
      | ok before =>
        simp only [pushed, bind, Except.bind, Except.ok.injEq, Prod.mk.injEq] at read
        rw [← read.1]
        decide
    · have short : 0 <<< 6 ||| char.toNat &&& 0x3F < least := by
        rw [and_3F, Nat.zero_shiftLeft, Nat.zero_or]
        omega
      rw [getucContinue, if_pos short] at read
      cases read
      decide

/-- What the writer emits at a slip is read back as an error, whatever follows. -/
theorem getuc_misencoded (code : Nat) (bad : misencoded code) (stream next : Stream)
    (rest : List UInt8) (value : Int) (starts : stream.remaining = convertToUTF8 code ++ rest)
    (read : getuc stream = .ok (value, next)) : value < 0 := by
  rcases bad with rfl | rfl | rfl
  · rw [show convertToUTF8 ((0x80 : Nat) : Int) = [0x80] by decide] at starts
    rw [getuc, vtable_getChar_cons stream _ _ starts, ok_bind] at read
    cases read
    decide
  · rw [show convertToUTF8 ((0x800 : Nat) : Int) = [0xE0, UInt8.ofNat (0 + 0x80)] by decide]
      at starts
    rw [getuc, vtable_getChar_cons stream _ _ starts, ok_bind] at read
    have opened : getucContinue 0x800 2 0
        (stream.advance [0xE0] (UInt8.ofNat (0 + 0x80) :: rest)) = .ok (value, next) := read
    rw [getucContinue_succ 0x800 1 0 0 _ rest (by decide) rfl] at opened
    exact getucContinue_overlong _ (by decide) _ _ _ opened
  · rw [show convertToUTF8 ((0x10000 : Nat) : Int) =
      [0xF0, UInt8.ofNat (0 + 0x80), UInt8.ofNat (0 + 0x80)] by decide] at starts
    rw [getuc, vtable_getChar_cons stream _ _ starts, ok_bind] at read
    have opened : getucContinue 0x10000 3 0
        (stream.advance [0xF0] (UInt8.ofNat (0 + 0x80) :: UInt8.ofNat (0 + 0x80) :: rest)) =
          .ok (value, next) := read
    rw [getucContinue_succ 0x10000 2 0 0 _ _ (by decide) rfl,
      getucContinue_succ 0x10000 1 _ 0 _ rest (by decide) rfl] at opened
    exact getucContinue_overlong _ (by decide) _ _ _ opened

/-- Writing a text with `convertToUTF8` and reading it with `getuc` gives the text back exactly
when it avoids U+0080, U+0800 and U+10000. -/
theorem convertToUTF8_readsBack_iff (text : List Char) :
    readsBack getuc (text.flatMap fun char => convertToUTF8 char.toNat) text ↔
      ∀ char ∈ text, ¬ misencoded char.toNat := by
  refine readsBack_iff getuc (fun char => convertToUTF8 char.toNat)
    (fun char => ¬ misencoded char.toNat) ?_ ?_ ?_ text
  · intro stream file _ ends
    exact ⟨_, getuc_end stream file ends⟩
  · intro char stream rest _ _ starts good
    rw [convertToUTF8_standard char good] at starts ⊢
    exact getuc_utf8EncodeChar char stream rest starts
  · intro char stream next rest value _ _ starts bad read
    have failed := getuc_misencoded _ (not_not.mp bad) stream next rest value starts read
    omega

/-- U+0080 is written as the lone byte `80`, which is read as an error. -/
theorem convertToUTF8_loses_padding :
    ¬ readsBack getuc ([Char.ofNat 0x80].flatMap fun char => convertToUTF8 char.toNat)
      [Char.ofNat 0x80] := by
  unfold readsBack
  decide

/-! ### Buffering in UTF-16 -/

/-- The units appended for one code point. -/
def utf16Units (code : Nat) : List UInt16 :=
  addUCS4ToUTF16Buffer [] code

/-- The buffer after a text was appended code point by code point. -/
def utf16Buffer (text : List Char) : List UInt16 :=
  text.foldl (fun buffer char => addUCS4ToUTF16Buffer buffer char.toNat) []

theorem addUCS4ToUTF16Buffer_eq (buffer : List UInt16) (code : Nat) :
    addUCS4ToUTF16Buffer buffer code = buffer ++ utf16Units code := by
  unfold utf16Units addUCS4ToUTF16Buffer
  split <;> simp

theorem utf16Buffer_eq (text : List Char) :
    utf16Buffer text = text.flatMap fun char => utf16Units char.toNat := by
  have run (buffer : List UInt16) :
      text.foldl (fun buffer char => addUCS4ToUTF16Buffer buffer char.toNat) buffer =
        buffer ++ text.flatMap fun char => utf16Units char.toNat := by
    induction text generalizing buffer with
    | nil => simp
    | cons char text inductionHypothesis =>
      rw [List.foldl_cons, inductionHypothesis, addUCS4ToUTF16Buffer_eq, List.flatMap_cons,
        List.append_assoc]
  exact run []

/-- The code point that comes back out of the buffer: U+10000 is truncated to zero. -/
def truncated (code : Nat) : Nat :=
  if code = 0x10000 then 0 else code

theorem ofInt_natCast (value : Nat) : UInt16.ofInt value = UInt16.ofNat value := by
  rw [← UInt16.toNat_inj]
  unfold UInt16.ofInt
  rw [UInt16.toNat_ofNat', UInt16.toNat_ofNat']
  omega

theorem utf16Units_small (code : Nat) (small : code ≤ 0x10000) :
    utf16Units code = [UInt16.ofNat (truncated code)] := by
  unfold utf16Units addUCS4ToUTF16Buffer truncated
  rw [if_neg (by omega)]
  split
  · rename_i first
    rw [first]
    decide
  · rw [ofInt_natCast]
    rfl

theorem utf16Units_large (code : Nat) (large : 0x10000 < code) (bound : code ≤ 0x10FFFF) :
    utf16Units code =
      [UInt16.ofNat (0xD7C0 + code / 1024), UInt16.ofNat (0xDC00 + code % 1024)] := by
  have low : 0xDC00 ||| code % 1024 = 0xDC00 + code % 1024 :=
    BitMask.or_field 55 (code % 1024) 10 (by omega)
  unfold utf16Units addUCS4ToUTF16Buffer
  rw [if_pos (by omega), land_of_nat _ _ (by omega), and_3FF, low]
  have high : (0xD800 - 0x10000 / 2 ^ 10 + (code : Int) / 2 ^ 10) =
      ((0xD7C0 + code / 1024 : Nat) : Int) := by
    push_cast
    omega
  rw [high, ofInt_natCast]
  rfl

theorem toNat_ofNat_unit (value : Nat) (small : value < 65536) :
    (UInt16.ofNat value).toNat = value := by
  rw [UInt16.toNat_ofNat']
  omega

theorem truncated_small {code : Nat} (small : code ≤ 0x10000)
    (scalar : code < 0xD800 ∨ 0xDFFF < code) :
    truncated code < 65536 ∧ (truncated code < 0xD800 ∨ 0xDFFF < truncated code) := by
  unfold truncated
  split <;> omega

/-- The units of one scalar value are joined again by the loop of `UTF16CharCondition`. -/
theorem utf16CodePoints_units (char : Char) (rest : List UInt16) (codes : List Nat)
    (joined : utf16CodePoints rest = .ok codes) :
    utf16CodePoints (utf16Units char.toNat ++ rest) = .ok (truncated char.toNat :: codes) := by
  have bound := char_le char
  have scalar := char_not_surrogate char
  generalize char.toNat = code at *
  by_cases small : code ≤ 0x10000
  · have below := truncated_small small scalar
    rw [utf16Units_small code small, List.singleton_append, utf16CodePoints.eq_def]
    simp only [toNat_ofNat_unit _ below.1, and_FC00]
    rw [if_neg (by omega), joined]
    rfl
  · rw [utf16Units_large code (by omega) bound, List.cons_append, List.singleton_append,
      utf16CodePoints.eq_def]
    simp only [toNat_ofNat_unit (0xD7C0 + code / 1024) (by omega),
      toNat_ofNat_unit (0xDC00 + code % 1024) (by omega), and_FC00, and_3FF]
    rw [if_pos (by omega), joined]
    refine congrArg (fun code => Except.ok (code :: codes)) ?_
    rw [Nat.shiftLeft_eq, truncated, if_neg (by omega)]
    omega

theorem utf16CodePoints_buffer (text : List Char) :
    utf16CodePoints (utf16Buffer text) = .ok (text.map fun char => truncated char.toNat) := by
  rw [utf16Buffer_eq]
  induction text with
  | nil => rfl
  | cons char text inductionHypothesis =>
    rw [List.flatMap_cons, List.map_cons]
    exact utf16CodePoints_units char _ _ inductionHypothesis

/-- The loop of `UTF16CharCondition` tests exactly the code points it joins. -/
theorem utf16CharCondition_eq (condition : Nat → Bool) (buffer : List UInt16) (codes : List Nat)
    (joined : utf16CodePoints buffer = .ok codes) :
    utf16CharCondition condition buffer = .ok (codes.all condition) := by
  induction buffer using utf16CodePoints.induct generalizing codes with
  | case1 =>
    cases joined
    rfl
  | case2 unit high =>
    rw [utf16CodePoints.eq_def] at joined
    simp [high] at joined
  | case3 unit high low units inductionHypothesis =>
    rw [utf16CodePoints.eq_def] at joined
    simp only [high, if_true] at joined
    obtain ⟨more, rest, joined⟩ := bind_eq_ok.mp joined
    cases joined
    rw [utf16CharCondition.eq_def]
    simp only [high, if_true, inductionHypothesis more rest, List.all_cons]
    split <;> simp [*]
  | case4 unit units plain inductionHypothesis =>
    rw [utf16CodePoints.eq_def] at joined
    simp only [plain, if_false] at joined
    obtain ⟨more, rest, joined⟩ := bind_eq_ok.mp joined
    cases joined
    rw [utf16CharCondition.eq_def]
    simp only [plain, if_false, inductionHypothesis more rest, List.all_cons]
    split <;> simp [*]

/-- The units of one scalar value are joined again on the way to UTF-8, and leave no pending
high surrogate behind. -/
theorem filteredConvertAll_units (char : Char) (rest : List UInt16) (bytes : List UInt8)
    (pending : Int) (converted : filteredConvertAll rest 0 = .ok (bytes, pending)) :
    filteredConvertAll (utf16Units char.toNat ++ rest) 0 =
      .ok (convertToUTF8 (truncated char.toNat) ++ bytes, pending) := by
  have bound := char_le char
  have scalar := char_not_surrogate char
  generalize char.toNat = code at *
  by_cases small : code ≤ 0x10000
  · have below := truncated_small small scalar
    have field : land ((truncated code : Nat) : Int) 0xFC00 =
        truncated code / 1024 % 64 * 1024 := by
      rw [land_of_nat _ _ (by omega), and_FC00]
    rw [utf16Units_small code small, List.singleton_append, filteredConvertAll,
      toNat_ofNat_unit _ below.1, filteredConvertToUTF8, if_neg (by omega), if_neg (by omega)]
    simp [bind, Except.bind, converted]
  · have high : land ((0xD7C0 + code / 1024 : Nat) : Int) 0xFC00 = 0xD800 := by
      rw [land_of_nat _ _ (by omega), and_FC00]
      omega
    have low : land ((0xDC00 + code % 1024 : Nat) : Int) 0xFC00 = 0xDC00 := by
      rw [land_of_nat _ _ (by omega), and_FC00]
      omega
    have present : (((0xD7C0 + code / 1024 : Nat) : Int) != 0) = true := by
      simp only [bne_iff_ne, ne_eq]
      omega
    have value : ((0xDC00 + code % 1024 : Nat) : Int) +
        ((0xD7C0 + code / 1024 : Nat) : Int) * 2 ^ 10 + 0x10000 - 0xD800 * 2 ^ 10 - 0xDC00 =
        ((truncated code : Nat) : Int) := by
      rw [truncated, if_neg (by omega)]
      push_cast
      omega
    rw [utf16Units_large code (by omega) bound, List.cons_append, List.singleton_append,
      filteredConvertAll, toNat_ofNat_unit (0xD7C0 + code / 1024) (by omega),
      filteredConvertToUTF8, if_pos high]
    simp only [bind, Except.bind]
    rw [filteredConvertAll, toNat_ofNat_unit (0xDC00 + code % 1024) (by omega),
      filteredConvertToUTF8, if_neg (by rw [low]; decide), if_pos low, value]
    simp only [assert, present, if_true, bind, Except.bind, converted, List.nil_append]

theorem filteredConvertAll_buffer (text : List Char) :
    filteredConvertAll (utf16Buffer text) 0 =
      .ok (text.flatMap (fun char => convertToUTF8 (truncated char.toNat)), 0) := by
  rw [utf16Buffer_eq]
  induction text with
  | nil => rfl
  | cons char text inductionHypothesis =>
    rw [List.flatMap_cons, List.flatMap_cons]
    exact filteredConvertAll_units char _ _ _ inductionHypothesis

/-- UTF-16 buffering is transparent: the writer emits what `convertToUTF8` emits for the
original values, without failing its assertion, and the classifier sees the original values. -/
def utf16Transparent (text : List Char) : Prop :=
  (∃ pending, filteredConvertAll (utf16Buffer text) 0 =
      .ok (text.flatMap (fun char => convertToUTF8 char.toNat), pending)) ∧
    utf16CodePoints (utf16Buffer text) = .ok (text.map Char.toNat)

theorem truncated_eq_iff (code : Nat) : truncated code = code ↔ code ≠ 0x10000 := by
  unfold truncated
  split <;> omega

/-- Buffering a text in UTF-16 is transparent exactly when it avoids U+10000. -/
theorem utf16Transparent_iff (text : List Char) :
    utf16Transparent text ↔ ∀ char ∈ text, char.toNat ≠ 0x10000 := by
  unfold utf16Transparent
  rw [filteredConvertAll_buffer, utf16CodePoints_buffer]
  constructor
  · rintro ⟨-, codes⟩ char member
    have same := (List.map_inj_left.mp (Except.ok.inj codes)) char member
    exact (truncated_eq_iff _).mp same
  · intro avoids
    have same : ∀ char ∈ text, truncated char.toNat = char.toNat := fun char member =>
      (truncated_eq_iff _).mpr (avoids char member)
    refine ⟨⟨0, ?_⟩, congrArg Except.ok (List.map_congr_left same)⟩
    refine congrArg (fun bytes => Except.ok (bytes, 0)) (List.flatMap_congr ?_)
    intro char member
    rw [same char member]

/-- U+10000 is buffered as the single unit zero. -/
theorem utf16Buffer_loses_linear_b : ¬ utf16Transparent [Char.ofNat 0x10000] := by
  rintro ⟨-, codes⟩
  revert codes
  decide

end Dwdiff
