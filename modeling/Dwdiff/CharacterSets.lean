/-
This file models how the options `-d` and `-W` add characters to the bitmaps of
the single-byte mode. The bitmap is indexed with a plain `char`, which is signed
on the release targets, so a byte from 0x80 on selects a negative index. The
bytes of `option_t` around the bitmaps are therefore modelled as memory: the
lengths of the two colours, which are `size_t` fields, and behind them the
delimiters and the whitespace.

The bits of this memory are numbered through. A byte from 0x80 on sets its bit
32 bytes too early: given to `-W` it becomes a delimiter, and given to `-d` it
changes the length of a colour.
-/

import Dwdiff.ReadFile

namespace Dwdiff

/-- The bytes of `option_t` from `delColorLen` up to the end of `whitespace`. -/
abbrev OptionBytes := Vector UInt8 80

/-- The two bitmaps. -/
inductive CharacterSet where
  | delimiters
  | whitespace
  deriving DecidableEq, Repr

/-- Where the bitmap starts: behind `delColorLen` and `addColorLen`, of eight bytes each. -/
def CharacterSet.array : CharacterSet → Nat
  | .delimiters => 16
  | .whitespace => 48

theorem CharacterSet.array_le (set : CharacterSet) : 16 ≤ set.array ∧ set.array + 32 ≤ 80 := by
  cases set <;> decide

/-- `SET_BIT`, on the array that starts at the given byte. -/
def setBit (memory : OptionBytes) (array : Nat) (b : Int) : Except Failure OptionBytes :=
  -- An arithmetic shift to the right rounds down, and so does the division.
  let index := (array : Int) + b / 8
  if inside : 0 ≤ index ∧ index.toNat < 80 then
    .ok (memory.set index.toNat (memory[index.toNat] ||| UInt8.ofNat (1 <<< (b % 8).toNat)))
  else .error .undefined

def addCharactersSC (chars : List UInt8) (array : Nat) (memory : OptionBytes) :
    Except Failure OptionBytes :=
  chars.foldlM (fun memory char => setBit memory array (signedChar char)) memory

def OptionBytes.bitmap (memory : OptionBytes) (set : CharacterSet) : Bitmap :=
  Vector.ofFn fun index : Fin 32 =>
    have := set.array_le.2
    memory[set.array + index]

/-- The options with the bitmaps that the memory holds. -/
def Options.load (options : Options) (memory : OptionBytes) : Options :=
  { options with
    delimiters := memory.bitmap .delimiters
    whitespace := memory.bitmap .whitespace }

/-- `isDelimiterSC` or `isWhitespaceSC`. -/
def CharacterSet.accepts : CharacterSet → Options → CharData → Except Failure Bool
  | .delimiters => isDelimiterSC
  | .whitespace => isWhitespaceSC

/-! ### The bits of the memory -/

/-- A bit of the memory, by its number. -/
def OptionBytes.bit (memory : OptionBytes) (number : Nat) : Bool :=
  (memory.toArray.getD (number / 8) 0).toNat.testBit (number % 8)

theorem bit_eq_testBit (memory : OptionBytes) {address : Nat} (inside : address < 80) {place : Nat}
    (small : place < 8) :
    memory.bit (8 * address + place) = memory[address].toNat.testBit place := by
  have isAddress : (8 * address + place) / 8 = address := by omega
  have isPlace : (8 * address + place) % 8 = place := by omega
  rw [OptionBytes.bit, isAddress, isPlace, Array.getD_eq_getD_getElem?, Array.getElem?_eq_getElem
    (by rw [memory.size_toArray]; exact inside)]
  rfl

theorem bitmap_get (memory : OptionBytes) (set : CharacterSet) (index : Nat) (small : index < 32)
    (inside : set.array + index < 80) :
    (memory.bitmap set).get ⟨index, small⟩ = memory[set.array + index] := by
  have lookup : (memory.bitmap set)[index] = memory[set.array + index] := by
    rw [OptionBytes.bitmap, Vector.getElem_ofFn]
  exact lookup

theorem accepts_iff (set : CharacterSet) (options : Options) (memory : OptionBytes)
    (charData : CharData) : set.accepts (options.load memory) charData = .ok true ↔
      memory.bit (8 * set.array + charData.singleChar.toNat) = true := by
  have small := charData.singleChar.toNat_lt
  have fits := set.array_le.2
  have tested : testBit (memory.bitmap set) charData.singleChar =
      memory.bit (8 * set.array + charData.singleChar.toNat) := by
    rw [show 8 * set.array + charData.singleChar.toNat =
        8 * (set.array + charData.singleChar.toNat / 8) + charData.singleChar.toNat % 8 by omega,
      bit_eq_testBit memory (by omega) (Nat.mod_lt _ (by decide)), testBit,
      bitmap_get memory set _ (by omega) (by omega)]
  rw [← tested]
  cases set
  · exact ⟨Except.ok.inj, congrArg Except.ok⟩
  · exact ⟨Except.ok.inj, congrArg Except.ok⟩

theorem testBit_or_one (byte : UInt8) {place : Nat} (small : place < 8) (other : Nat) :
    (byte ||| UInt8.ofNat (1 <<< place)).toNat.testBit other =
      (byte.toNat.testBit other || decide (other = place)) := by
  have power : 1 <<< place < 256 := by
    rw [Nat.one_shiftLeft]
    exact Nat.pow_lt_pow_right (by decide) small
  rw [UInt8.toNat_or, Nat.testBit_or, UInt8.toNat_ofNat', Nat.mod_eq_of_lt power,
    Nat.one_shiftLeft, Nat.testBit_two_pow]
  simp only [eq_comm]

/-- `SET_BIT` sets the bit with the number it computes, inside the bitmap or not. -/
theorem setBit_bit (memory : OptionBytes) {array : Nat} {b : Int}
    (low : 0 ≤ 8 * (array : Int) + b) (high : 8 * (array : Int) + b < 640) :
    ∃ after, setBit memory array b = .ok after ∧ ∀ number < 640,
      after.bit number = (memory.bit number || decide ((number : Int) = 8 * array + b)) := by
  have inside : 0 ≤ (array : Int) + b / 8 ∧ ((array : Int) + b / 8).toNat < 80 := by omega
  have place : (b % 8).toNat < 8 := by omega
  refine ⟨_, by rw [setBit, dif_pos inside], fun number below => ?_⟩
  have isNumber : number = 8 * (number / 8) + number % 8 := by omega
  rw [isNumber, bit_eq_testBit _ (by omega) (Nat.mod_lt _ (by decide)),
    bit_eq_testBit _ (by omega) (Nat.mod_lt _ (by decide)), Vector.getElem_set]
  split
  · next here =>
    rw [testBit_or_one _ place]
    congr 1
    · simp only [here]
    · refine decide_eq_decide.mpr ?_
      omega
  · next elsewhere => rw [decide_eq_false (by omega), Bool.or_false]

theorem signedChar_bounds (byte : UInt8) : -128 ≤ signedChar byte ∧ signedChar byte < 128 := by
  have small := byte.toNat_lt
  unfold signedChar
  split <;> omega

theorem signedChar_of_large {byte : UInt8} (large : 0x80 ≤ byte.toNat) :
    signedChar byte = byte.toNat - 256 := if_neg (by omega)

/-- A plain `char` is the unsigned value below 0x80 only. -/
theorem signedChar_eq_iff (byte other : UInt8) :
    signedChar byte = other.toNat ↔ byte = other ∧ other.toNat < 0x80 := by
  have small := byte.toNat_lt
  rw [← UInt8.toNat_inj]
  unfold signedChar
  split <;> omega

/-- The bits that a string of characters sets. -/
theorem addCharactersSC_bit (set : CharacterSet) (chars : List UInt8) (memory : OptionBytes) :
    ∃ after, addCharactersSC chars set.array memory = .ok after ∧ ∀ number < 640,
      (after.bit number = true ↔ memory.bit number = true ∨
        ∃ byte ∈ chars, (number : Int) = 8 * set.array + signedChar byte) := by
  have fits := set.array_le
  induction chars generalizing memory with
  | nil => exact ⟨memory, rfl, fun number _ => by simp⟩
  | cons byte chars inductionHypothesis =>
    have bounds := signedChar_bounds byte
    obtain ⟨between, sets, isBetween⟩ := @setBit_bit memory set.array (signedChar byte) (by omega)
      (by omega)
    obtain ⟨after, adds, isAfter⟩ := inductionHypothesis between
    refine ⟨after, ?_, fun number below => ?_⟩
    · rw [addCharactersSC, List.foldlM_cons, sets]
      exact adds
    · rw [isAfter number below, isBetween number below, Bool.or_eq_true, decide_eq_true_iff,
        or_assoc, List.exists_mem_cons_iff]

/-- Two memories agree at an address when their bits do. -/
theorem eq_of_bits {memory after : OptionBytes} {address : Nat} (inside : address < 80)
    (same : ∀ place < 8, (after.bit (8 * address + place) = true ↔
      memory.bit (8 * address + place) = true)) : after[address] = memory[address] := by
  refine UInt8.toNat_inj.mp (Nat.eq_of_testBit_eq fun place => ?_)
  by_cases small : place < 8
  · have agree := same place small
    rw [bit_eq_testBit after inside small, bit_eq_testBit memory inside small] at agree
    exact Bool.eq_iff_iff.mpr agree
  · have large : ∀ byte : UInt8, byte.toNat.testBit place = false := fun byte =>
      Nat.testBit_lt_two_pow (Nat.lt_of_lt_of_le byte.toNat_lt
        (Nat.pow_le_pow_right (by decide) (by omega : 8 ≤ place)))
    rw [large, large]

/-- What the characters of a string should do to a bitmap: nothing else changes, and a byte is
accepted if it was before or is in the string. -/
structure Honours (set : CharacterSet) (chars : List UInt8) (memory after : OptionBytes) :
    Prop where
  others : ∀ address, (inside : address < 80) →
    ¬ (set.array ≤ address ∧ address < set.array + 32) → after[address] = memory[address]
  accepts : ∀ (options : Options) (charData : CharData),
    set.accepts (options.load after) charData = .ok true ↔
    set.accepts (options.load memory) charData = .ok true ∨ charData.singleChar ∈ chars

section Honours

variable {set : CharacterSet} {chars : List UInt8} {memory after : OptionBytes}

/-- The bytes whose bits are set inside the bitmap. -/
theorem accepts_after_iff
    (bits : ∀ number < 640, (after.bit number = true ↔ memory.bit number = true ∨
      ∃ byte ∈ chars, (number : Int) = 8 * set.array + signedChar byte))
    (options : Options) (charData : CharData) :
    set.accepts (options.load after) charData = .ok true ↔
      set.accepts (options.load memory) charData = .ok true ∨
        charData.singleChar ∈ chars ∧ charData.singleChar.toNat < 0x80 := by
  have fits := set.array_le
  have small := charData.singleChar.toNat_lt
  have isPlace : ∀ byte : UInt8, ((8 * set.array + charData.singleChar.toNat : Nat) : Int) =
      8 * set.array + signedChar byte ↔ signedChar byte = charData.singleChar.toNat := by
    intro byte
    push_cast
    omega
  rw [accepts_iff, accepts_iff, bits _ (by omega)]
  refine or_congr_right ⟨fun ⟨byte, member, isNumber⟩ => ?_, fun ⟨member, ascii⟩ => ?_⟩
  · obtain ⟨rfl, ascii⟩ := (signedChar_eq_iff _ _).mp ((isPlace byte).mp isNumber)
    exact ⟨member, ascii⟩
  · exact ⟨_, member, (isPlace _).mpr ((signedChar_eq_iff _ _).mpr ⟨rfl, ascii⟩)⟩

/-- The number of the bit that a byte from 0x80 on sets. -/
theorem early_bit {byte : UInt8} (large : 0x80 ≤ byte.toNat) :
    8 * set.array + byte.toNat - 256 =
        8 * (set.array + byte.toNat / 8 - 32) + byte.toNat % 8 ∧
      set.array + byte.toNat / 8 - 32 < set.array ∧
      ((8 * set.array + byte.toNat - 256 : Nat) : Int) = 8 * set.array + signedChar byte := by
  have fits := set.array_le
  have small := byte.toNat_lt
  rw [signedChar_of_large large]
  omega

end Honours

/-- `addCharactersSC` honours the given string exactly when each of its bytes from 0x80 on
changes nothing because it was in the set already, together with the bit 32 bytes before. -/
theorem addCharactersSC_honours_iff (set : CharacterSet) (chars : List UInt8)
    (memory : OptionBytes) :
    ∃ after, addCharactersSC chars set.array memory = .ok after ∧
      (Honours set chars memory after ↔ ∀ byte ∈ chars, 0x80 ≤ byte.toNat →
        memory.bit (8 * set.array + byte.toNat) = true ∧
        memory.bit (8 * set.array + byte.toNat - 256) = true) := by
  have fits := set.array_le
  obtain ⟨after, adds, bits⟩ := addCharactersSC_bit set chars memory
  have accepted := accepts_after_iff bits
  refine ⟨after, adds, ⟨fun honours byte member large => ⟨?_, ?_⟩, fun already => ⟨?_, ?_⟩⟩⟩
  · have isAccepted := (honours.accepts defaultOptions ⟨byte, [], [], []⟩).mpr (Or.inr member)
    rcases (accepted _ _).mp isAccepted with before | ⟨-, ascii⟩
    · exact (accepts_iff set defaultOptions memory ⟨byte, [], [], []⟩).mp before
    · exact absurd ascii (Nat.not_lt.mpr large)
  · obtain ⟨isPlace, early, isNumber⟩ := @early_bit set byte large
    have isSet := (bits _ (by have := byte.toNat_lt; omega)).mpr (Or.inr ⟨byte, member, isNumber⟩)
    have inside : set.array + byte.toNat / 8 - 32 < 80 := by omega
    rw [isPlace, bit_eq_testBit _ inside (Nat.mod_lt _ (by decide))] at isSet ⊢
    rwa [honours.others _ inside (by omega)] at isSet
  · intro address inside outside
    refine eq_of_bits inside fun place small => ?_
    rw [bits _ (by omega)]
    refine or_iff_left_of_imp fun ⟨byte, member, isNumber⟩ => ?_
    by_cases large : 0x80 ≤ byte.toNat
    · obtain ⟨-, -, isNumber'⟩ := @early_bit set byte large
      rw [show 8 * address + place = 8 * set.array + byte.toNat - 256 by omega]
      exact (already byte member large).2
    · have isByte : signedChar byte = byte.toNat := if_pos (by omega)
      omega
  · intro options charData
    rw [accepted]
    refine ⟨fun isAccepted => isAccepted.imp_right And.left, fun isAccepted => ?_⟩
    rcases isAccepted with before | member
    · exact Or.inl before
    · by_cases large : 0x80 ≤ charData.singleChar.toNat
      · exact Or.inl ((accepts_iff set options memory charData).mpr (already _ member large).1)
      · exact Or.inr ⟨member, by omega⟩

/-- Given to `-W`, the byte 0xE9 becomes a delimiter and no whitespace. -/
theorem addCharactersSC_misplaces :
    ∃ after, addCharactersSC [0xE9] CharacterSet.whitespace.array (Vector.replicate 80 0) =
        .ok after ∧
      isWhitespaceSC (defaultOptions.load after) ⟨0xE9, [], [], []⟩ = .ok false ∧
      isDelimiterSC (defaultOptions.load after) ⟨0xE9, [], [], []⟩ = .ok true :=
  ⟨(Vector.replicate 80 0).set 45 2, by decide, by decide, by decide⟩

end Dwdiff
