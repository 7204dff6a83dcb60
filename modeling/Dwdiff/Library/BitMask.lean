/-
This file turns the bit masks and shifts of byte and surrogate arithmetic into
division and remainder, so that a case analysis over code points becomes linear
arithmetic.
-/

import Mathlib.Data.Nat.Bitwise

namespace BitMask

/-- A mask of `width` ones shifted left by `shift` keeps one field of a number. -/
theorem and_field (value width shift : Nat) :
    value &&& (2 ^ width - 1) * 2 ^ shift = value / 2 ^ shift % 2 ^ width * 2 ^ shift := by
  refine Nat.eq_of_testBit_eq fun index => ?_
  simp only [Nat.testBit_and, Nat.testBit_mul_two_pow, Nat.testBit_two_pow_sub_one,
    Nat.testBit_mod_two_pow, Nat.testBit_div_two_pow]
  by_cases low : shift ≤ index
  · simp only [low, decide_true, Bool.true_and, Nat.sub_add_cancel low]
    exact Bool.and_comm _ _
  · simp [low]

theorem and_low (value width : Nat) : value &&& (2 ^ width - 1) = value % 2 ^ width :=
  Nat.and_two_pow_sub_one_eq_mod value width

/-- Appending a field below a shifted number is addition. -/
theorem shiftLeft_or (high low width : Nat) (small : low < 2 ^ width) :
    high <<< width ||| low = high * 2 ^ width + low := by
  rw [← Nat.shiftLeft_add_eq_or_of_lt small, Nat.shiftLeft_eq]

theorem or_field (high low width : Nat) (small : low < 2 ^ width) :
    high * 2 ^ width ||| low = high * 2 ^ width + low := by
  rw [← Nat.shiftLeft_eq, shiftLeft_or high low width small, Nat.shiftLeft_eq]

end BitMask
