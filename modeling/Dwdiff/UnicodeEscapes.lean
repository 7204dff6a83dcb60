/-
This file says what `parseEscapes` makes of the Unicode escapes. Their value is
gathered in a signed number of thirty-two bits, compared with the largest code
point, tested for a surrogate under a mask of sixteen bits, and written as UTF-8.
Each of the four steps is right for common values, and three of them are not
right for all: the values they get wrong are exactly the misread ones.
-/

import Dwdiff.Escapes

namespace Dwdiff

variable {descr : String} {content out rest after digits : List UInt8} {value : Nat}

/-! ### Reaching an escape -/

/-- The expander has read a part of the text, given `out` for it, and has `rest` before it. -/
inductive Expands (descr : String) (text : List UInt8) : List UInt8 → List UInt8 → Prop
  | start : Expands descr text [] text
  | more {out rest bytes rest' : List UInt8} (expands : Expands descr text out rest)
    (something : rest ≠ []) (first : expandFirst descr rest = .ok (bytes, rest')) :
    Expands descr text (out ++ bytes) rest'

theorem expandFrom_eq {fuel : Nat} {text : List UInt8} (enough : text.length < fuel) :
    expandFrom descr fuel text = expand descr text := by
  have general : ∀ fuel' fuel (text : List UInt8), text.length < fuel → text.length < fuel' →
      expandFrom descr fuel text = expandFrom descr fuel' text := by
    intro fuel'
    induction fuel' with
    | zero => exact fun fuel text _ enough' => absurd enough' (Nat.not_lt_zero _)
    | succ fuel' inductionHypothesis =>
      intro fuel text enough enough'
      obtain ⟨fuel, rfl⟩ := Nat.exists_eq_succ_of_ne_zero (Nat.ne_zero_of_lt enough)
      unfold expandFrom
      by_cases empty : text = []
      · rw [if_pos empty, if_pos empty]
      · rw [if_neg empty, if_neg empty]
        have meets := @expandFirst_meets descr text empty
        cases first : expandFirst descr text with
        | error failure => rfl
        | ok result =>
          rw [first] at meets
          obtain ⟨taken, isText, nonempty, -⟩ := meets
          have some := List.length_pos_iff.mpr nonempty
          rw [isText, List.length_append] at enough enough'
          rw [ok_bind, ok_bind]
          dsimp only
          rw [inductionHypothesis fuel result.2 (by omega) (by omega)]
  exact general _ _ text enough (Nat.lt_succ_self _)

theorem expand_cons (something : rest ≠ []) :
    expand descr rest = (do
      let (bytes, text) ← expandFirst descr rest
      let others ← expand descr text
      .ok (bytes ++ others)) := by
  have meets := @expandFirst_meets descr rest something
  rw [expand, expandFrom, if_neg something]
  cases first : expandFirst descr rest with
  | error failure => rfl
  | ok result =>
    rw [first] at meets
    obtain ⟨taken, isText, nonempty, -⟩ := meets
    have some := List.length_pos_iff.mpr nonempty
    have enough : result.2.length < rest.length := by
      rw [isText, List.length_append]
      omega
    rw [ok_bind, ok_bind]
    dsimp only
    rw [expandFrom_eq enough]

theorem Expands.expand (expands : Expands descr content out rest) :
    Dwdiff.expand descr content = (Dwdiff.expand descr rest).map (out ++ ·) := by
  induction expands with
  | start => cases Dwdiff.expand descr content <;> rfl
  | more expands something first inductionHypothesis =>
    rw [inductionHypothesis, expand_cons something, first, ok_bind]
    dsimp only
    cases Dwdiff.expand descr _ with
    | error failure => rfl
    | ok others => exact congrArg Except.ok (List.append_assoc ..).symm

/-! ### The value of an escape -/

theorem shiftIn_bmod (value : Nat) (digit : UInt8) :
    shiftIn (Int.bmod value (2 ^ 32)) digit =
      Int.bmod (value * 16 + hexValue digit : Nat) (2 ^ 32) := by
  have cast : ((value * 16 + hexValue digit : Nat) : Int) =
      (value : Int) * 16 + hexValue digit := by
    omega
  rw [shiftIn, cast, ← Int.bmod_add_bmod, Int.bmod_mul_bmod, Int.bmod_add_bmod]

/-- The value wraps around in thirty-two bits. -/
theorem foldl_shiftIn (digits : List UInt8) (value : Nat) :
    digits.foldl shiftIn (Int.bmod value (2 ^ 32)) =
      Int.bmod (digits.foldl (fun sum digit => sum * 16 + hexValue digit) value : Nat)
        (2 ^ 32) := by
  induction digits generalizing value with
  | nil => rw [List.foldl_nil, List.foldl_nil]
  | cons digit digits inductionHypothesis =>
    rw [List.foldl_cons, List.foldl_cons, shiftIn_bmod, inductionHypothesis]

theorem foldl_hexValue_lt {value bound : Nat} (isHex : ∀ digit ∈ digits, isxdigit digit = true)
    (below : value < bound) :
    digits.foldl (fun sum digit => sum * 16 + hexValue digit) value <
      bound * 16 ^ digits.length := by
  induction digits generalizing value bound with
  | nil => simpa using below
  | cons digit digits inductionHypothesis =>
    obtain ⟨isDigit, others⟩ := List.forall_mem_cons.mp isHex
    have small := hexValue_lt isDigit
    have next := @inductionHypothesis (value * 16 + hexValue digit) (bound * 16) others (by omega)
    rwa [List.length_cons, Nat.pow_succ', ← Nat.mul_assoc]

theorem digitsValue_lt (isHex : digits.all isxdigit = true) :
    digitsValue 16 hexValue digits < 16 ^ digits.length := by
  have below := @foldl_hexValue_lt digits 0 1 (List.all_eq_true.mp isHex) (by decide)
  rwa [Nat.one_mul] at below

/-- The values that an escape does not stand for: where `convertToUTF8` picks the shorter form,
where the mask takes a supplementary character for a surrogate, and where the value is negative as
a signed number and passes the range check. -/
def misread (value : Nat) : Prop :=
  misencoded value ∨
  (0x10000 ≤ value ∧ value ≤ 0x10FFFF ∧ value &&& 0xF800 = 0xD800) ∨
  (0x80000000 ≤ value ∧ value &&& 0xF800 ≠ 0xD800)

instance (value : Nat) : Decidable (misread value) :=
  inferInstanceAs (Decidable (_ ∨ _ ∨ _))

theorem bmod_of_lt (small : value < 2 ^ 32) :
    Int.bmod value (2 ^ 32) = if value < 2 ^ 31 then (value : Int) else value - 2 ^ 32 := by
  rw [Int.bmod_def]
  split <;> split <;> omega

theorem land_bmod (small : value < 2 ^ 32) (mask : Nat) :
    land (Int.bmod value (2 ^ 32)) mask = value &&& mask := by
  have same : (Int.bmod value (2 ^ 32) % 2 ^ 32).toNat = value := by
    rw [bmod_of_lt small]
    split <;> omega
  rw [land, same]

/-- What a Unicode escape stands for, by its value. -/
theorem unicodeBytes_bmod (small : value < 2 ^ 32) (long : Bool) :
    unicodeBytes descr long (Int.bmod value (2 ^ 32)) =
      if 0x10FFFF < value ∧ value < 2 ^ 31 then .error (outOfRange descr)
      else if value &&& 0xF800 = 0xD800 then .error (surrogateEscape long descr)
      else .ok (convertToUTF8 (Int.bmod value (2 ^ 32))) := by
  have range : Int.bmod value (2 ^ 32) > 0x10FFFF ↔ 0x10FFFF < value ∧ value < 2 ^ 31 := by
    rw [bmod_of_lt small]
    split <;> omega
  rw [unicodeBytes, land_bmod small]
  exact if_congr range rfl rfl

/-! ### What an escape is replaced by -/

/-- The letter of a Unicode escape. -/
def unicodeEscape (long : Bool) : UInt8 := if long then 0x55 else 0x75

/-- The whole text, when the expander reaches a Unicode escape in it. -/
theorem Expands.expand_unicode {long : Bool}
    (reaches : Expands descr content out (backslash :: unicodeEscape long :: (digits ++ rest)))
    (count : digits.length = if long then 8 else 4) (isHex : digits.all isxdigit = true)
    (rests : Dwdiff.expand descr rest = .ok after) :
    Dwdiff.expand descr content =
      (unicodeBytes descr long (Int.bmod (digitsValue 16 hexValue digits) (2 ^ 32))).map
        (out ++ · ++ after) := by
  have value := foldl_shiftIn digits 0
  have escape : expandEscape descr (unicodeEscape long :: (digits ++ rest)) =
      expandUnicode descr long (digits ++ rest) := by
    cases long <;> rfl
  rw [reaches.expand, expand_cons (List.cons_ne_nil _ _), expandFirst, if_pos rfl, escape,
    expandUnicode]
  dsimp only
  rw [← count, List.take_left, List.drop_left, if_pos ⟨rfl, isHex⟩]
  rw [show Int.bmod ((0 : Nat) : Int) (2 ^ 32) = 0 by decide] at value
  rw [value, digitsValue]
  cases unicodeBytes descr long _ with
  | error failure => rfl
  | ok bytes =>
    rw [ok_bind, ok_bind]
    dsimp only
    rw [rests]
    exact congrArg Except.ok (List.append_assoc ..).symm

/-- An outcome of `parseEscapes` for a text with an escape of `value` between what `out` and
`after` stand for: the escape is accepted exactly if the value is a scalar value, and it is
replaced by its standard encoding. -/
def MeansWhatItSays (value : Nat) (out after : List UInt8)
    (outcome : Except Failure (Nat × List UInt8)) : Prop :=
  (value.isValidChar → ∃ behind, outcome =
    .ok ((out ++ String.utf8EncodeChar (Char.ofNat value) ++ after).length,
      out ++ String.utf8EncodeChar (Char.ofNat value) ++ after ++ 0 :: behind)) ∧
  (¬ value.isValidChar → ∃ failure, outcome = .error failure)

theorem parseEscapes_of_error {failure : Failure} (noNul : 0 ∉ content)
    (fails : Dwdiff.expand descr content = .error failure) :
    parseEscapes (content ++ [0]) descr = .error failure := by
  rcases parseEscapes_eq descr noNul with
    ⟨failure', fails', -, parses⟩ | ⟨bytes, behind, expands, -⟩
  · rw [fails] at fails'
    rw [parses, Except.error.inj fails']
  · rw [fails] at expands
    contradiction

theorem parseEscapes_of_ok {bytes : List UInt8} (noNul : 0 ∉ content)
    (expands : Dwdiff.expand descr content = .ok bytes) :
    ∃ behind, parseEscapes (content ++ [0]) descr = .ok (bytes.length, bytes ++ 0 :: behind) := by
  rcases parseEscapes_eq descr noNul with
    ⟨failure, fails, -⟩ | ⟨bytes', behind, expands', -, parses⟩
  · rw [expands] at fails
    contradiction
  · rw [expands] at expands'
    cases expands'
    exact ⟨behind, parses⟩

/-- The writer gives a scalar value its standard encoding, off the three slips. -/
theorem convertToUTF8_eq_iff (valid : value.isValidChar) :
    convertToUTF8 value = String.utf8EncodeChar (Char.ofNat value) ↔ ¬ misencoded value := by
  have toNat : (Char.ofNat value).toNat = value := by
    rw [Char.ofNat, dif_pos valid]
    rfl
  constructor
  · rintro same (rfl | rfl | rfl) <;> exact absurd same (by decide)
  · intro good
    rw [← toNat] at good
    have standard := convertToUTF8_standard (Char.ofNat value) good
    rwa [toNat] at standard

/-- A Unicode escape that `parseEscapes` reaches means what it says exactly if its value is not
misread: then it is accepted if and only if the value is a scalar value, and replaced by its
standard encoding. -/
theorem parseEscapes_unicode_iff (noNul : 0 ∉ content) {long : Bool}
    (reaches : Expands descr content out (backslash :: unicodeEscape long :: (digits ++ rest)))
    (count : digits.length = if long then 8 else 4) (isHex : digits.all isxdigit = true)
    (rests : Dwdiff.expand descr rest = .ok after) :
    MeansWhatItSays (digitsValue 16 hexValue digits) out after
        (parseEscapes (content ++ [0]) descr) ↔
      ¬ misread (digitsValue 16 hexValue digits) := by
  have small : digitsValue 16 hexValue digits < 2 ^ 32 := by
    refine (digitsValue_lt isHex).trans_le ?_
    rw [count]
    cases long <;> decide
  have expands := reaches.expand_unicode count isHex rests
  rw [unicodeBytes_bmod small] at expands
  generalize digitsValue 16 hexValue digits = value at *
  have masked := and_F800 value
  have valid : value.isValidChar ↔ value < 0xD800 ∨ 0xDFFF < value ∧ value < 0x110000 := Iff.rfl
  have refused {failure : Failure}
      (fails : Dwdiff.expand descr content = .error failure) :
      MeansWhatItSays value out after (parseEscapes (content ++ [0]) descr) ↔
        ¬ value.isValidChar := by
    rw [parseEscapes_of_error noNul fails]
    refine ⟨fun means isValid => ?_, fun invalid => ⟨fun isValid => absurd isValid invalid, ?_⟩⟩
    · obtain ⟨behind, impossible⟩ := means.1 isValid
      contradiction
    · exact fun _ => ⟨failure, rfl⟩
  by_cases high : 0x10FFFF < value ∧ value < 2 ^ 31
  · rw [if_pos high] at expands
    rw [refused expands, misread, misencoded, masked, valid]
    omega
  rw [if_neg high] at expands
  by_cases surrogate : value &&& 0xF800 = 0xD800
  · rw [if_pos surrogate] at expands
    rw [refused expands, misread, misencoded, valid]
    omega
  rw [if_neg surrogate] at expands
  obtain ⟨behind, parses⟩ := parseEscapes_of_ok noNul expands
  dsimp only at parses
  rw [parses]
  by_cases negative : 2 ^ 31 ≤ value
  · -- The value passes as a negative number, and one byte is written for it.
    have bad : misread value := Or.inr (Or.inr ⟨by omega, surrogate⟩)
    refine iff_of_false (fun means => ?_) (not_not_intro bad)
    obtain ⟨failure, impossible⟩ := means.2 (by omega)
    contradiction
  · have isValid : value.isValidChar := by omega
    rw [bmod_of_lt small, if_pos (by omega)]
    have slips : ¬ misread value ↔ ¬ misencoded value := by
      rw [misread, not_or]
      exact and_iff_left (by omega)
    rw [slips, ← convertToUTF8_eq_iff isValid]
    constructor
    · intro means
      obtain ⟨behind', same⟩ := means.1 isValid
      obtain ⟨sameLength, sameBytes⟩ := Prod.mk.inj (Except.ok.inj same)
      have whole := (List.append_inj sameBytes sameLength).1
      rw [List.append_assoc, List.append_assoc, List.append_right_inj] at whole
      exact List.append_cancel_right whole
    · intro standard
      exact ⟨fun _ => ⟨behind, by rw [standard]⟩, fun invalid => absurd isValid invalid⟩

theorem parseEscapes_unicode_euro :
    MeansWhatItSays 0x20AC [] [0x61]
      (parseEscapes ([backslash, 0x75, 0x32, 0x30, 0x41, 0x63, 0x61] ++ [0]) "delimiters") :=
  (@parseEscapes_unicode_iff "delimiters" _ [] [0x61] [0x61] [0x32, 0x30, 0x41, 0x63] (by decide)
    false .start rfl rfl rfl).mpr (by decide)

/-- `\U80000041` is accepted and stands for a capital A, `\U0001D800` is refused as a surrogate,
and `\u0080` stands for a lone continuation byte. -/
theorem parseEscapes_unicode_misread :
    (¬ Nat.isValidChar 0x80000041 ∧
      parseEscapes ([backslash, 0x55, 0x38, 0x30, 0x30, 0x30, 0x30, 0x30, 0x34, 0x31] ++ [0])
        "delimiters" =
          .ok (1, [0x41] ++ 0 :: [0x38, 0x30, 0x30, 0x30, 0x30, 0x30, 0x34, 0x31, 0])) ∧
    (Nat.isValidChar 0x1D800 ∧
      parseEscapes ([backslash, 0x55, 0x30, 0x30, 0x30, 0x31, 0x44, 0x38, 0x30, 0x30] ++ [0])
        "delimiters" = .error (surrogateEscape true "delimiters")) ∧
    String.utf8EncodeChar (Char.ofNat 0x80) = [0xC2, 0x80] ∧
      parseEscapes ([backslash, 0x75, 0x30, 0x30, 0x38, 0x30] ++ [0]) "delimiters" =
        .ok (1, [0x80] ++ 0 :: [0x30, 0x30, 0x38, 0x30, 0]) := by
  decide

end Dwdiff
