/-
This file is about the windows of a finite sequence of natural numbers: the
sequence is continued with -1 on both sides, and the window at a place holds the
element there and a fixed number of elements before it. A window that reaches
past an end may be written with a single -1 on that side, since its length then
tells how far it reaches.
-/

import Dwdiff.Library.Selection
import Mathlib.Data.List.Range

namespace Window

/-- The sequence, continued with -1 on both sides. -/
def padded (values : List Nat) (place : Int) : Int :=
  if 0 ≤ place ∧ place < values.length then values.getD place.toNat 0 else -1

/-- The windows of two sequences at two places hold the same. -/
def Agree (x y : Int → Int) (width p q : Int) : Prop :=
  ∀ back, 0 ≤ back → back ≤ width → x (p - back) = y (q - back)

/-- The window at a place, with a single -1 on either side. -/
def gram (values : List Nat) (width place : Int) : List Int :=
  (Int.range (max (place - width) (-1)) (min place values.length + 1)).map (padded values)

variable {values others : List Nat} {width p q place : Int}

theorem padded_inside (nonneg : 0 ≤ place) (below : place < values.length) :
    0 ≤ padded values place := by
  rw [padded, if_pos ⟨nonneg, below⟩]
  exact Int.natCast_nonneg _

theorem padded_outside (outside : place < 0 ∨ values.length ≤ place) :
    padded values place = -1 := if_neg (by omega)

theorem inside_of_nonneg (nonneg : 0 ≤ padded values place) :
    0 ≤ place ∧ place < values.length := by
  by_contra outside
  rw [padded, if_neg outside] at nonneg
  exact absurd nonneg (by decide)

theorem outside_of_eq (isPad : padded values place = -1) :
    place < 0 ∨ values.length ≤ place := by
  by_contra inside
  have := padded_inside (by omega) (by omega : place < values.length)
  omega

theorem Agree.symm {x y : Int → Int} (agree : Agree x y width p q) : Agree y x width q p :=
  fun back nonneg le => (agree back nonneg le).symm

section Agree

variable (agree : Agree (padded values) (padded others) width p q)

include agree

/-- Two windows that agree at some offset reach equally far there. -/
theorem Agree.inside {back : Int} (nonneg : 0 ≤ back) (le : back ≤ width) (low : 0 ≤ p - back)
    (high : p - back < values.length) : 0 ≤ q - back ∧ q - back < others.length := by
  have same := agree back nonneg le
  have positive := padded_inside low high
  rw [same] at positive
  exact inside_of_nonneg positive

theorem Agree.outside {back : Int} (nonneg : 0 ≤ back) (le : back ≤ width)
    (out : p - back < 0 ∨ values.length ≤ p - back) : q - back < 0 ∨ others.length ≤ q - back := by
  have same := agree back nonneg le
  rw [padded_outside out] at same
  exact outside_of_eq same.symm

/-- A window that reaches past the end of its sequence agrees only with a window that reaches
equally far past the end of the other one. -/
theorem Agree.balanced (nonempty : 0 < values.length) (past : values.length ≤ p)
    (near : p < values.length + width) : p - values.length = q - others.length := by
  have last := agree.inside (by omega : 0 ≤ p - values.length + 1) (by omega) (by omega) (by omega)
  have after := agree.outside (by omega : 0 ≤ p - values.length) (by omega) (by omega)
  omega

/-- A window that reaches past the start agrees only with a window at the same place. -/
theorem Agree.start (nonempty : 0 < values.length) (nonneg : 0 ≤ p) (past : p < width) : p = q := by
  have first := agree.inside nonneg (by omega) (by omega) (by omega)
  have before := agree.outside (by omega : 0 ≤ p + 1) (by omega) (by omega)
  omega

end Agree

theorem map_range_eq_iff {Value : Type} {x y : Int → Value} {first last first' last' : Int} :
    (Int.range first last).map x = (Int.range first' last').map y ↔
      (last - first).toNat = (last' - first').toNat ∧
        ∀ index : Nat, index < (last - first).toNat → x (first + index) = y (first' + index) := by
  simp only [Int.range, List.map_map]
  constructor
  · intro equal
    have lengths : (last - first).toNat = (last' - first').toNat := by
      simpa using congrArg List.length equal
    refine ⟨lengths, fun index below => ?_⟩
    rw [← lengths] at equal
    exact List.map_inj_left.mp equal index (List.mem_range.mpr below)
  · rintro ⟨lengths, same⟩
    rw [← lengths]
    exact List.map_inj_left.mpr fun index below => same index (List.mem_range.mp below)

/-- Windows that agree are written in the same way. -/
theorem gram_eq_of_agree (wide : 0 < width) (fits : width ≤ values.length)
    (fits' : width ≤ others.length) (nonneg : 0 ≤ p) (near : p < values.length + width)
    (nonneg' : 0 ≤ q) (near' : q < others.length + width)
    (agree : Agree (padded values) (padded others) width p q) :
    gram values width p = gram others width q := by
  refine map_range_eq_iff.mpr ?_
  rcases Int.lt_or_le p width with early | late
  · have same := agree.start (by omega) nonneg early
    subst same
    refine ⟨by omega, fun index below => ?_⟩
    have equal := agree (p - (max (p - width) (-1) + index)) (by omega) (by omega)
    rwa [sub_sub_cancel] at equal
  · -- Inside the values both windows are whole, and at their end they are cut off alike.
    have far : width - 1 ≤ q ∧ min p values.length - p = min q others.length - q := by
      rcases Int.lt_or_le p values.length with middle | past
      · have first := agree.inside (by omega : 0 ≤ width) le_rfl (by omega) (by omega)
        have last := agree.inside le_rfl (by omega : 0 ≤ width) (by omega) (by omega)
        omega
      · have balanced := agree.balanced (by omega) past near
        omega
    refine ⟨by omega, fun index below => ?_⟩
    have equal := agree (width - index) (by omega) (by omega)
    rwa [show max (p - width) (-1) + (index : Int) = p - (width - index) by omega,
      show max (q - width) (-1) + (index : Int) = q - (width - index) by omega]

/-- Windows that are written in the same way agree. -/
theorem agree_of_gram_eq (wide : 0 < width) (fits : width ≤ values.length)
    (fits' : width ≤ others.length) (nonneg : 0 ≤ p) (near : p < values.length + width)
    (nonneg' : 0 ≤ q) (near' : q < others.length + width)
    (equal : gram values width p = gram others width q) :
    Agree (padded values) (padded others) width p q := by
  obtain ⟨lengths, same⟩ := map_range_eq_iff.mp equal
  -- What stands at the two ends of the written windows tells which kind they are.
  have onset := same 0 (by omega)
  have final := same (min p values.length - max (p - width) (-1)).toNat (by omega)
  rw [Nat.cast_zero, add_zero, add_zero] at onset
  rw [show max (p - width) (-1) + ((min p values.length - max (p - width) (-1)).toNat : Int) =
      min p values.length by omega,
    show max (q - width) (-1) + ((min p values.length - max (p - width) (-1)).toNat : Int) =
      min q others.length by omega] at final
  have early : p < width ↔ q < width := by
    constructor
    · intro early
      rw [show max (p - width) (-1) = -1 by omega, padded_outside (by omega)] at onset
      have := outside_of_eq onset.symm
      omega
    · intro early
      rw [show max (q - width) (-1) = -1 by omega,
        @padded_outside others (-1) (Or.inl (by decide))] at onset
      have := outside_of_eq onset
      omega
  have past : values.length ≤ p ↔ others.length ≤ q := by
    constructor
    · intro past
      rw [min_eq_right past, padded_outside (by omega)] at final
      have := outside_of_eq final.symm
      omega
    · intro past
      rw [min_eq_right past, @padded_outside others others.length (Or.inr le_rfl)] at final
      have := outside_of_eq final
      omega
  intro back low high
  by_cases written : max (p - width) (-1) ≤ p - back ∧ p - back ≤ min p values.length
  · have entry := same (p - back - max (p - width) (-1)).toNat (by omega)
    rwa [show max (p - width) (-1) + ((p - back - max (p - width) (-1)).toNat : Int) =
        p - back by omega,
      show max (q - width) (-1) + ((p - back - max (p - width) (-1)).toNat : Int) =
        q - back by omega] at entry
  · rw [padded_outside (by omega), padded_outside (by omega)]

/-! ### The windows in terms of the list -/

/-- A stretch of the sequence, as a part of the list. -/
theorem map_range_padded {first last : Nat} (high : last ≤ values.length) :
    (Int.range first last).map (padded values) =
      ((values.drop first).take (last - first)).map Int.ofNat := by
  refine List.ext_getElem (by simp [Int.range]; omega) fun index below below' => ?_
  simp only [Int.range, List.length_map, List.length_range] at below
  have inside : 0 ≤ (first : Int) + index ∧ (first : Int) + index < values.length := by omega
  have place : ((first : Int) + index).toNat = first + index := by omega
  simp [Int.range, padded, inside, place, List.getElem?_eq_getElem (by omega :
    first + index < values.length)]

variable {size index : Nat}

theorem gram_first (early : index < size) (fits : size ≤ values.length) :
    gram values size index = -1 :: (values.take (index + 1)).map Int.ofNat := by
  have tail := @map_range_padded values 0 (index + 1) (by omega)
  rw [gram, show max ((index : Int) - size) (-1) = -1 by omega,
    show min (index : Int) values.length + 1 = ((index + 1 : Nat) : Int) by omega,
    Selection.range_append (by omega : (-1 : Int) ≤ 0) (by omega), List.map_append]
  rw [Nat.cast_zero, List.drop_zero, Nat.sub_zero] at tail
  rw [tail, show Int.range (-1) 0 = [-1] from rfl]
  rfl

theorem gram_middle (late : size ≤ index) (inside : index < values.length) :
    gram values size index = ((values.drop (index - size)).take (size + 1)).map Int.ofNat := by
  have stretch := @map_range_padded values (index - size) (index + 1) (by omega)
  rw [gram, show max ((index : Int) - size) (-1) = ((index - size : Nat) : Int) by omega,
    show min (index : Int) values.length + 1 = ((index + 1 : Nat) : Int) by omega, stretch,
    show index + 1 - (index - size) = size + 1 by omega]

theorem gram_last (past : values.length ≤ index) (near : index < values.length + size)
    (fits : size ≤ values.length) :
    gram values size index = (values.drop (index - size)).map Int.ofNat ++ [-1] := by
  have stretch := @map_range_padded values (index - size) values.length le_rfl
  rw [List.take_of_length_le (by rw [List.length_drop])] at stretch
  rw [gram, show max ((index : Int) - size) (-1) = ((index - size : Nat) : Int) by omega,
    show min (index : Int) values.length = values.length by omega,
    Selection.range_append (by omega : ((index - size : Nat) : Int) ≤ values.length) (by omega),
    List.map_append, stretch, Selection.range_single, List.map_singleton,
    padded_outside (Or.inr le_rfl)]

/-! ### The windows inside a list -/

section Inner

variable {Value : Type}

/-- The stretches of `width + 1` elements that start at the first `count` places. -/
def windows (width : Nat) (values : List Value) (count : Nat) : List (List Value) :=
  (List.range count).map fun index => (values.drop index).take (width + 1)

theorem windows_append (width : Nat) (front back : List Value) (count : Nat) :
    windows width (front ++ back) (front.length + count) =
      windows width (front ++ back) front.length ++ windows width back count := by
  rw [windows, List.range_add, List.map_append, List.map_map]
  congr 1
  refine List.map_congr_left fun index _ => ?_
  show ((front ++ back).drop (front.length + index)).take _ = _
  rw [← List.drop_drop, List.drop_left]

/-- The windows that start in a run of one value with enough of it behind them. -/
theorem windows_replicate (width count : Nat) (value : Value) (tail : List Value) :
    windows width (List.replicate count value ++ (List.replicate width value ++ tail)) count =
      List.replicate count (List.replicate (width + 1) value) := by
  have all : ∀ index ∈ List.range count,
      ((List.replicate count value ++ (List.replicate width value ++ tail)).drop index).take
        (width + 1) = List.replicate (width + 1) value := by
    intro index below
    have small := List.mem_range.mp below
    rw [← List.append_assoc, ← List.replicate_add, List.drop_append_of_le_length (by simp; omega),
      List.drop_replicate, List.take_append_of_le_length (by simp; omega), List.take_replicate,
      min_eq_left (by omega)]
  rw [windows, List.map_congr_left all, List.map_const', List.length_range]

end Inner

end Window
