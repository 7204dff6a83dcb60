/-
This file develops the edit graph of two sequences. A path moves right (one
element of the first sequence is deleted), down (one element of the second is
inserted) or along a diagonal where the two elements are the same; its cost is
the number of right and down moves. The file proves how paths join, split,
mirror and shorten, and it develops the frontier of a search from one corner:
for one cost, the furthest point that each diagonal can reach.
-/

import Mathlib.Data.Int.Notation
import Mathlib.Order.Basic
import Mathlib.Tactic.Ring

namespace EditGraph

/-- A path of the given cost from `(x, y)`. -/
inductive Path (same : Int → Int → Prop) (x y : Int) : Nat → Int → Int → Prop
  | here : Path same x y 0 x y
  | right {cost : Nat} {x' y' : Int} :
      Path same x y cost x' y' → Path same x y (cost + 1) (x' + 1) y'
  | down {cost : Nat} {x' y' : Int} :
      Path same x y cost x' y' → Path same x y (cost + 1) x' (y' + 1)
  | diagonal {cost : Nat} {x' y' : Int} :
      Path same x y cost x' y' → same x' y' → Path same x y cost (x' + 1) (y' + 1)

variable {same : Int → Int → Prop} {x y x' y' x'' y'' : Int} {cost cost' : Nat}

namespace Path

/-! ### Distances along a path -/

theorem ordered (path : Path same x y cost x' y') : x ≤ x' ∧ y ≤ y' := by
  induction path with
  | here => exact ⟨le_rfl, le_rfl⟩
  | right _ inductionHypothesis | down _ inductionHypothesis | diagonal _ _ inductionHypothesis =>
    omega

/-- The diagonal changes by at most one for each edit. -/
theorem drift (path : Path same x y cost x' y') :
    x' - y' - (x - y) ≤ cost ∧ x - y - (x' - y') ≤ cost := by
  induction path with
  | here => omega
  | right _ inductionHypothesis | down _ inductionHypothesis | diagonal _ _ inductionHypothesis =>
    omega

/-- Every edit is one of the steps between the two points; the others pair up. -/
theorem cost_le (path : Path same x y cost x' y') : (cost : Int) ≤ x' - x + (y' - y) := by
  induction path with
  | here => omega
  | right _ inductionHypothesis | down _ inductionHypothesis | diagonal _ _ inductionHypothesis =>
    omega

theorem parity (path : Path same x y cost x' y') : (x' - y' - (x - y) - cost) % 2 = 0 := by
  induction path with
  | here => omega
  | right _ inductionHypothesis | down _ inductionHypothesis | diagonal _ _ inductionHypothesis =>
    omega

/-! ### Joining, splitting and mirroring paths -/

/-- Only the places between the ends of a path matter. -/
theorem within {same' : Int → Int → Prop} {right bottom : Int}
    (equal : ∀ place other, x ≤ place → place < right → y ≤ other → other < bottom →
      same place other → same' place other)
    (path : Path same x y cost x' y') (wide : x' ≤ right) (tall : y' ≤ bottom) :
    Path same' x y cost x' y' := by
  induction path with
  | here => exact .here
  | right _ inductionHypothesis => exact (inductionHypothesis (by omega) tall).right
  | down _ inductionHypothesis => exact (inductionHypothesis wide (by omega)).down
  | diagonal path match' inductionHypothesis =>
    have ordered := path.ordered
    exact (inductionHypothesis (by omega) (by omega)).diagonal
      (equal _ _ ordered.1 (by omega) ordered.2 (by omega) match')

theorem trans (first : Path same x y cost x' y') (second : Path same x' y' cost' x'' y'') :
    Path same x y (cost + cost') x'' y'' := by
  induction second with
  | here => exact first
  | right _ inductionHypothesis => exact inductionHypothesis.right
  | down _ inductionHypothesis => exact inductionHypothesis.down
  | diagonal _ equal inductionHypothesis => exact inductionHypothesis.diagonal equal

theorem rights : ∀ count : Nat, Path same x y count (x + count) y
  | 0 => by simpa using here
  | count + 1 => by
    rw [Nat.cast_succ, ← add_assoc]
    exact (rights count).right

theorem downs : ∀ count : Nat, Path same x y count x (y + count)
  | 0 => by simpa using here
  | count + 1 => by
    rw [Nat.cast_succ, ← add_assoc]
    exact (downs count).down

/-- Deleting everything and inserting everything. -/
theorem straight (wide : x ≤ x') (tall : y ≤ y') :
    Path same x y ((x' - x).toNat + (y' - y).toNat) x' y' := by
  have across : Path same x y (x' - x).toNat x' y := by
    have path := @rights same x y (x' - x).toNat
    rwa [Int.toNat_of_nonneg (by omega), add_sub_cancel] at path
  have along : Path same x' y (y' - y).toNat x' y' := by
    have path := @downs same x' y (y' - y).toNat
    rwa [Int.toNat_of_nonneg (by omega), add_sub_cancel] at path
  exact across.trans along

/-- A run of equal elements is a path without a cost. -/
theorem slide {first : Int} (diagonal' : Int) :
    ∀ count : Nat, (∀ place, first ≤ place → place < first + count →
        same place (place - diagonal')) →
      Path same first (first - diagonal') 0 (first + count) (first + count - diagonal')
  | 0, _ => by simpa using here
  | count + 1, equal => by
    have path := slide diagonal' count fun place low high => equal place low (by omega)
    have step := path.diagonal (equal (first + count) (by omega) (by omega))
    rw [Nat.cast_succ, ← add_assoc]
    convert step using 1
    ring

/-- A path can be cut after any number of its edits. -/
theorem split (path : Path same x y cost x' y') {part : Nat} (within : part ≤ cost) :
    ∃ x₁ y₁, Path same x y part x₁ y₁ ∧ Path same x₁ y₁ (cost - part) x' y' := by
  induction path with
  | here =>
    obtain rfl : part = 0 := by omega
    exact ⟨x, y, .here, .here⟩
  | @right cost x' y' path inductionHypothesis =>
    rcases Nat.lt_or_ge cost part with beyond | within'
    · obtain rfl : part = cost + 1 := by omega
      exact ⟨x' + 1, y', path.right, by rw [Nat.sub_self]; exact .here⟩
    · obtain ⟨x₁, y₁, first, second⟩ := inductionHypothesis within'
      exact ⟨x₁, y₁, first, by rw [Nat.succ_sub within']; exact second.right⟩
  | @down cost x' y' path inductionHypothesis =>
    rcases Nat.lt_or_ge cost part with beyond | within'
    · obtain rfl : part = cost + 1 := by omega
      exact ⟨x', y' + 1, path.down, by rw [Nat.sub_self]; exact .here⟩
    · obtain ⟨x₁, y₁, first, second⟩ := inductionHypothesis within'
      exact ⟨x₁, y₁, first, by rw [Nat.succ_sub within']; exact second.down⟩
  | diagonal _ equal inductionHypothesis =>
    obtain ⟨x₁, y₁, first, second⟩ := inductionHypothesis within
    exact ⟨x₁, y₁, first, second.diagonal equal⟩

end Path

/-- The edit graph of the two sequences read backwards. -/
def mirror (same : Int → Int → Prop) : Int → Int → Prop :=
  fun place other => same (-place - 1) (-other - 1)

theorem mirror_mirror : mirror (mirror same) = same := by
  funext place other
  show same (-(-place - 1) - 1) (-(-other - 1) - 1) = same place other
  rw [show -(-place - 1) - 1 = place by ring, show -(-other - 1) - 1 = other by ring]

theorem Path.mirrored (path : Path same x y cost x' y') :
    Path (mirror same) (-x') (-y') cost (-x) (-y) := by
  induction path with
  | here => exact .here
  | @right cost x' y' _ inductionHypothesis =>
    have step : Path (mirror same) (-(x' + 1)) (-y') 1 (-x') (-y') := by
      have first := (@Path.here (mirror same) (-(x' + 1)) (-y')).right
      rwa [show -(x' + 1) + 1 = -x' by ring] at first
    rw [Nat.add_comm]
    exact step.trans inductionHypothesis
  | @down cost x' y' _ inductionHypothesis =>
    have step : Path (mirror same) (-x') (-(y' + 1)) 1 (-x') (-y') := by
      have first := (@Path.here (mirror same) (-x') (-(y' + 1))).down
      rwa [show -(y' + 1) + 1 = -y' by ring] at first
    rw [Nat.add_comm]
    exact step.trans inductionHypothesis
  | @diagonal cost x' y' _ equal inductionHypothesis =>
    have equal' : mirror same (-(x' + 1)) (-(y' + 1)) := by
      show same (-(-(x' + 1)) - 1) (-(-(y' + 1)) - 1)
      rwa [show -(-(x' + 1)) - 1 = x' by ring, show -(-(y' + 1)) - 1 = y' by ring]
    have step := Path.here.diagonal equal'
    rw [show -(x' + 1) + 1 = -x' by ring, show -(y' + 1) + 1 = -y' by ring] at step
    rw [← Nat.zero_add cost]
    exact step.trans inductionHypothesis

theorem Path.unmirrored (path : Path (mirror same) (-x') (-y') cost (-x) (-y)) :
    Path same x y cost x' y' := by
  have twice := path.mirrored
  rwa [mirror_mirror, neg_neg, neg_neg, neg_neg, neg_neg] at twice

namespace Path

variable (path : Path same x y cost x' y')

include path

/-- Without an edit, and with different elements ahead, a path cannot leave its start. -/
theorem stays (differ : ¬ same x y) (free : cost = 0) : x' = x ∧ y' = y := by
  induction path with
  | here => exact ⟨rfl, rfl⟩
  | right | down => omega
  | diagonal _ equal inductionHypothesis =>
    obtain ⟨rfl, rfl⟩ := inductionHypothesis free
    exact absurd equal differ

/-- Two sequences that are not empty and that differ in the first and in the last element need
two edits. -/
theorem two_le_cost (wide : x < x') (tall : y < y') (differ : ¬ same x y)
    (differ' : ¬ same (x' - 1) (y' - 1)) : 2 ≤ cost := by
  cases path with
  | here => omega
  | right path | down path =>
    by_contra few
    have := path.stays differ (by omega)
    omega
  | diagonal _ equal =>
    rw [add_sub_cancel_right, add_sub_cancel_right] at differ'
    exact absurd equal differ'

/-! ### Clipping and shortening -/

/-- A path that leaves the box `x' ≤ right`, `y' ≤ bottom` can be clipped to it, and saves the
edits that lead outside, when no two elements outside are the same. -/
theorem clip {right bottom : Int}
    (outside : ∀ place other, same place other → place < right ∧ other < bottom) (left : x ≤ right)
    (top : y ≤ bottom) :
    ∃ less, Path same x y less (min x' right) (min y' bottom) ∧
      (less : Int) + (x' - min x' right) + (y' - min y' bottom) ≤ cost := by
  induction path with
  | here =>
    rw [min_eq_left left, min_eq_left top]
    exact ⟨0, .here, by omega⟩
  | @right cost x' y' _ inductionHypothesis =>
    obtain ⟨less, path, saved⟩ := inductionHypothesis
    rcases lt_or_ge x' right with inside | beyond
    · rw [min_eq_left (by omega)] at path saved
      refine ⟨less + 1, ?_, ?_⟩
      · rw [min_eq_left (by omega)]
        exact path.right
      · rw [min_eq_left (by omega)]
        omega
    · rw [min_eq_right beyond] at path saved
      refine ⟨less, ?_, ?_⟩ <;> rw [min_eq_right (by omega)]
      · exact path
      · omega
  | @down cost x' y' _ inductionHypothesis =>
    obtain ⟨less, path, saved⟩ := inductionHypothesis
    rcases lt_or_ge y' bottom with inside | beyond
    · rw [min_eq_left (by omega : y' ≤ bottom)] at path saved
      refine ⟨less + 1, ?_, ?_⟩
      · rw [min_eq_left (by omega : y' + 1 ≤ bottom)]
        exact path.down
      · rw [min_eq_left (by omega : y' + 1 ≤ bottom)]
        omega
    · rw [min_eq_right beyond] at path saved
      refine ⟨less, ?_, ?_⟩ <;> rw [min_eq_right (by omega : bottom ≤ y' + 1)]
      · exact path
      · omega
  | @diagonal cost x' y' _ equal inductionHypothesis =>
    obtain ⟨less, path, saved⟩ := inductionHypothesis
    obtain ⟨insideRight, insideBottom⟩ := outside x' y' equal
    rw [min_eq_left (by omega : x' ≤ right), min_eq_left (by omega : y' ≤ bottom)] at path saved
    refine ⟨less, ?_, ?_⟩ <;>
      rw [min_eq_left (by omega : x' + 1 ≤ right), min_eq_left (by omega : y' + 1 ≤ bottom)]
    · exact path.diagonal equal
    · omega

/-- Starting one step further along the diagonal costs no more. -/
theorem shortenStart_one (wide : x < x') (tall : y < y') :
    ∃ less ≤ cost, Path same (x + 1) (y + 1) less x' y' := by
  induction path with
  | here => omega
  | @right cost x' y' path inductionHypothesis =>
    rcases (Int.lt_or_eq_of_le path.ordered.1) with further | level
    · obtain ⟨less, bound, path'⟩ := inductionHypothesis further tall
      exact ⟨less + 1, by omega, path'.right⟩
    · -- The path so far goes straight down, and so does the shorter one.
      have bounds := path.drift
      refine ⟨_, ?_, straight (by omega) (by omega)⟩
      omega
  | @down cost x' y' path inductionHypothesis =>
    rcases (Int.lt_or_eq_of_le path.ordered.2) with further | level
    · obtain ⟨less, bound, path'⟩ := inductionHypothesis wide further
      exact ⟨less + 1, by omega, path'.down⟩
    · have bounds := path.drift
      refine ⟨_, ?_, straight (by omega) (by omega)⟩
      omega
  | @diagonal cost x' y' path equal inductionHypothesis =>
    have bounds := path.drift
    rcases (Int.lt_or_eq_of_le path.ordered.1) with furtherX | levelX
    · rcases (Int.lt_or_eq_of_le path.ordered.2) with furtherY | levelY
      · obtain ⟨less, bound, path'⟩ := inductionHypothesis furtherX furtherY
        exact ⟨less, bound, path'.diagonal equal⟩
      · refine ⟨_, ?_, straight (by omega) (by omega)⟩
        omega
    · refine ⟨_, ?_, straight (by omega) (by omega)⟩
      omega

/-- Starting further along the diagonal costs no more. -/
theorem shortenStart :
    ∀ count : Nat, x + count ≤ x' → y + count ≤ y' →
      ∃ less ≤ cost, Path same (x + count) (y + count) less x' y'
  | 0, _, _ => ⟨cost, le_rfl, by simpa using path⟩
  | count + 1, wide, tall => by
    obtain ⟨less, bound, path'⟩ := shortenStart count (by omega) (by omega)
    obtain ⟨less', bound', path''⟩ := path'.shortenStart_one (by omega) (by omega)
    refine ⟨less', bound'.trans bound, ?_⟩
    rwa [Nat.cast_succ, ← add_assoc, ← add_assoc]

/-- Ending earlier on the diagonal costs no more. -/
theorem shortenEnd (count : Nat) (wide : x ≤ x' - count) (tall : y ≤ y' - count) :
    ∃ less ≤ cost, Path same x y less (x' - count) (y' - count) := by
  obtain ⟨less, bound, path'⟩ := path.mirrored.shortenStart count (by omega) (by omega)
  refine ⟨less, bound, ?_⟩
  rw [show -x' + (count : Int) = -(x' - count) by ring,
    show -y' + (count : Int) = -(y' - count) by ring] at path'
  exact path'.unmirrored

end Path

end EditGraph
