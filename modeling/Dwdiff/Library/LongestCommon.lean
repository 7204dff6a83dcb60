/-
This file is about the common sublists of two lists and their greatest length.
A common sublist is a path through the edit graph of the two lists, so a bound
on what every path costs is a bound on the length of every common sublist; and
the other way around, the diagonal moves of a path spell a common sublist.
-/

import Dwdiff.Library.EditGraph
import Dwdiff.Library.Selection
import Mathlib.Data.List.Sublists
import Mathlib.Tactic.Linarith

namespace EditGraph

variable {Value : Type} {common : List Value}

/-! ### The greatest length -/

section Greatest

variable [DecidableEq Value] (xs ys : List Value)

/-- The sublists of the first list that are sublists of the second. -/
def commonSublists : List (List Value) := xs.sublists.filter fun common => common.Sublist ys

theorem mem_commonSublists {xs ys : List Value} :
    common ∈ commonSublists xs ys ↔ common.Sublist xs ∧ common.Sublist ys := by
  simp [commonSublists]

/-- The length of a longest common sublist. -/
def longestCommon : Nat := ((commonSublists xs ys).map List.length).foldr max 0

variable {xs ys}

/-- A length that some common sublist has and none exceeds is the greatest. -/
theorem longestCommon_eq (sublist : common.Sublist xs) (sublist' : common.Sublist ys)
    (longest : ∀ other : List Value, other.Sublist xs → other.Sublist ys →
      other.length ≤ common.length) : longestCommon xs ys = common.length := by
  have above : ∀ lengths : List Nat, ∀ length ∈ lengths, length ≤ lengths.foldr max 0 := by
    intro lengths
    induction lengths with
    | nil => exact fun _ member => absurd member List.not_mem_nil
    | cons head rest inductionHypothesis =>
      intro length member
      rcases List.mem_cons.mp member with rfl | later
      · exact le_max_left _ _
      · exact (inductionHypothesis length later).trans (le_max_right _ _)
  have below : ∀ lengths : List Nat, (∀ length ∈ lengths, length ≤ common.length) →
      lengths.foldr max 0 ≤ common.length := by
    intro lengths small
    induction lengths with
    | nil => exact Nat.zero_le _
    | cons head rest inductionHypothesis =>
      exact max_le (small head List.mem_cons_self)
        (inductionHypothesis fun length member => small length (List.mem_cons_of_mem _ member))
  refine le_antisymm (below _ fun length member => ?_) (above _ _ ?_)
  · obtain ⟨other, isCommon, rfl⟩ := List.mem_map.mp member
    obtain ⟨inFirst, inSecond⟩ := mem_commonSublists.mp isCommon
    exact longest other inFirst inSecond
  · exact List.mem_map_of_mem (mem_commonSublists.mpr ⟨sublist, sublist'⟩)

end Greatest

/-! ### Common sublists as paths -/

/-- The first element of a sublist, where it is found. -/
theorem split_of_cons_sublist {first : Value} {xs : List Value}
    (sublist : (first :: common).Sublist xs) :
    ∃ before after, xs = before ++ first :: after ∧ common.Sublist after := by
  obtain ⟨front, back, rfl, member, rest⟩ := List.cons_sublist_iff.mp sublist
  obtain ⟨before, between, rfl⟩ := List.append_of_mem member
  refine ⟨before, between ++ back, by simp, rest.trans (List.sublist_append_right _ _)⟩

/-- What has no element in the front of a list is a sublist of the rest. -/
theorem sublist_of_disjoint_left {front back : List Value}
    (sublist : common.Sublist (front ++ back)) (disjoint : ∀ value ∈ common, value ∉ front) :
    common.Sublist back := by
  obtain ⟨first, second, rfl, inFront, inBack⟩ := List.sublist_append_iff.mp sublist
  have nothing : first = [] := List.eq_nil_iff_forall_not_mem.mpr fun value member =>
    disjoint value (List.mem_append_left _ member) (inFront.subset member)
  rwa [nothing, List.nil_append]

theorem sublist_of_disjoint_right {front back : List Value}
    (sublist : common.Sublist (front ++ back)) (disjoint : ∀ value ∈ common, value ∉ back) :
    common.Sublist front := by
  obtain ⟨first, second, rfl, inFront, inBack⟩ := List.sublist_append_iff.mp sublist
  have nothing : second = [] := List.eq_nil_iff_forall_not_mem.mpr fun value member =>
    disjoint value (List.mem_append_right _ member) (inBack.subset member)
  rwa [nothing, List.append_nil]

/-- Deleting and inserting what stands between the elements of a common sublist is a path. -/
theorem path_of_sublist {same : Int → Int → Prop} {common xs ys : List Value} {x y : Int}
    (sublist : common.Sublist xs) (sublist' : common.Sublist ys)
    (equal : ∀ (i j : Nat) (value : Value), xs[i]? = some value → ys[j]? = some value →
      same (x + i) (y + j)) :
    ∃ cost, Path same x y cost (x + xs.length) (y + ys.length) ∧
      cost + 2 * common.length = xs.length + ys.length := by
  induction common generalizing xs ys x y with
  | nil =>
    obtain ⟨cost, isCost, path⟩ : ∃ cost : Nat, cost = xs.length + ys.length ∧
        Path same x y cost (x + xs.length) (y + ys.length) :=
      ⟨_, rfl, (Path.rights xs.length).trans (Path.downs ys.length)⟩
    exact ⟨cost, path, by simp [isCost]⟩
  | cons first common inductionHypothesis =>
    obtain ⟨before, after, rfl, rest⟩ := split_of_cons_sublist sublist
    obtain ⟨before', after', rfl, rest'⟩ := split_of_cons_sublist sublist'
    have here : same (x + before.length) (y + before'.length) :=
      equal before.length before'.length first (by simp) (by simp)
    have front : Path same x y (before.length + before'.length) (x + before.length + 1)
        (y + before'.length + 1) :=
      ((Path.rights before.length).trans (Path.downs before'.length)).diagonal here
    obtain ⟨cost, back, isCost⟩ := inductionHypothesis rest rest'
      (x := x + before.length + 1) (y := y + before'.length + 1) fun i j value found found' => by
        have later := equal (before.length + (i + 1)) (before'.length + (j + 1)) value
          (by rwa [List.getElem?_append_right (Nat.le_add_right _ _), Nat.add_sub_cancel_left])
          (by rwa [List.getElem?_append_right (Nat.le_add_right _ _), Nat.add_sub_cancel_left])
        push_cast at later
        rwa [show x + before.length + 1 + (i : Int) = x + (before.length + (i + 1)) by ring,
          show y + before'.length + 1 + (j : Int) = y + (before'.length + (j + 1)) by ring]
    refine ⟨before.length + before'.length + cost, ?_, ?_⟩
    · have whole := front.trans back
      rwa [show x + before.length + 1 + (after.length : Int) =
          x + ((before ++ first :: after).length : Nat) by simp; ring,
        show y + before'.length + 1 + (after'.length : Int) =
          y + ((before' ++ first :: after').length : Nat) by simp; ring] at whole
    · simp only [List.length_append, List.length_cons]
      omega

/-- The elements on the diagonal moves of a path are common to both sequences, and the other moves
are what it costs. -/
theorem Path.exists_common {same : Int → Int → Prop} {xs ys : Int → Value}
    (equal : ∀ place other, same place other → xs place = ys other) {x y x' y' : Int} {cost : Nat}
    (path : Path same x y cost x' y') :
    ∃ common : List Value, common.Sublist ((Int.range x x').map xs) ∧
      common.Sublist ((Int.range y y').map ys) ∧
      (cost : Int) + 2 * common.length = x' - x + (y' - y) := by
  induction path with
  | here => exact ⟨[], List.nil_sublist _, List.nil_sublist _, by simp⟩
  | @right cost x' y' path inductionHypothesis =>
    obtain ⟨common, sublist, sublist', isCost⟩ := inductionHypothesis
    refine ⟨common, ?_, sublist', by push_cast; omega⟩
    rw [Selection.range_succ path.ordered.1, List.map_append]
    exact sublist.trans (List.sublist_append_left _ _)
  | @down cost x' y' path inductionHypothesis =>
    obtain ⟨common, sublist, sublist', isCost⟩ := inductionHypothesis
    refine ⟨common, sublist, ?_, by push_cast; omega⟩
    rw [Selection.range_succ path.ordered.2, List.map_append]
    exact sublist'.trans (List.sublist_append_left _ _)
  | @diagonal cost x' y' path isSame inductionHypothesis =>
    obtain ⟨common, sublist, sublist', isCost⟩ := inductionHypothesis
    refine ⟨common ++ [xs x'], ?_, ?_, ?_⟩
    · rw [Selection.range_succ path.ordered.1, List.map_append]
      exact sublist.append (List.Sublist.refl _)
    · rw [Selection.range_succ path.ordered.2, List.map_append, equal x' y' isSame]
      exact sublist'.append (List.Sublist.refl _)
    · rw [List.length_append, List.length_singleton]
      push_cast
      omega

end EditGraph
