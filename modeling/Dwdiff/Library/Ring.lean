/-
This file describes a ring of cells that is filled round after round. In the
first round the cells up to the present one are in use, and later all of them,
the oldest of which is the one behind the present one.
-/

import Mathlib.Data.List.Basic

namespace Ring

variable {Cell : Type} {cells : List Cell} {index : Nat}

/-- The cells that are in use in the first round, in the order in which they were filled. -/
def started (cells : List Cell) (index : Nat) : List Cell := cells.take (index + 1)

/-- The cells in the order in which they were filled, when all are in use. -/
def contents (cells : List Cell) (index : Nat) : List Cell :=
  cells.drop (index + 1) ++ cells.take (index + 1)

theorem started_last (last : index + 1 = cells.length) : started cells index = cells :=
  List.take_of_length_le (Nat.le_of_eq last.symm)

theorem contents_last (last : index + 1 = cells.length) : contents cells index = cells := by
  rw [contents, List.drop_of_length_le (Nat.le_of_eq last.symm),
    List.take_of_length_le (Nat.le_of_eq last.symm), List.nil_append]

/-- The present cell is the last one. -/
theorem started_eq (inside : index < cells.length) :
    started cells index = cells.take index ++ [cells[index]] :=
  List.take_succ_eq_append_getElem inside

theorem contents_eq (inside : index < cells.length) :
    contents cells index = cells.drop (index + 1) ++ cells.take index ++ [cells[index]] := by
  rw [contents, List.take_succ_eq_append_getElem inside, List.append_assoc]

theorem started_set (inside : index < cells.length) (value : Cell) :
    started (cells.set index value) index = cells.take index ++ [value] := by
  rw [started_eq (by rwa [List.length_set]), List.take_set_of_le (Nat.le_refl index),
    List.getElem_set_self]

theorem contents_set (inside : index < cells.length) (value : Cell) :
    contents (cells.set index value) index =
      cells.drop (index + 1) ++ cells.take index ++ [value] := by
  rw [contents_eq (by rwa [List.length_set]), List.take_set_of_le (Nat.le_refl index),
    List.getElem_set_self, List.drop_set_of_lt (Nat.lt_succ_self index)]

/-- The next cell of the first round. -/
theorem started_next (inside : index + 1 < cells.length) (value : Cell) :
    started (cells.set (index + 1) value) (index + 1) = started cells index ++ [value] := by
  rw [started_set inside, started]

/-- The next cell of a later round holds the oldest value, which is lost. -/
theorem contents_next (inside : index + 1 < cells.length) (value : Cell) :
    contents (cells.set (index + 1) value) (index + 1) =
      (contents cells index).tail ++ [value] := by
  rw [contents_set inside, contents, List.drop_eq_getElem_cons inside, List.cons_append,
    List.tail_cons]

/-- Behind the last cell comes the first one. -/
theorem contents_wrap (last : index + 1 = cells.length) (value : Cell) :
    contents (cells.set 0 value) 0 = (contents cells index).tail ++ [value] := by
  rw [contents_last last]
  cases cells with
  | nil => contradiction
  | cons first rest => rfl

end Ring
