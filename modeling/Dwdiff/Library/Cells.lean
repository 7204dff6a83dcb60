/-
This file models an array that a program reads and writes through a pointer:
the indices may start below zero, and an access outside the allocated range has
no meaning.
-/

import Mathlib.Data.Int.Notation
import Mathlib.Data.List.Nodup
import Mathlib.Logic.Function.Basic

/-- The memory behind a pointer: the first and the last index that may be used, and what the
cells hold. -/
structure Cells (Value : Type) where
  lower : Int
  upper : Int
  value : Int → Value

namespace Cells

variable {Value : Type}

/-- An index that may be used. -/
def Inside (cells : Cells Value) (index : Int) : Prop :=
  cells.lower ≤ index ∧ index ≤ cells.upper

instance (cells : Cells Value) (index : Int) : Decidable (cells.Inside index) :=
  inferInstanceAs (Decidable (_ ∧ _))

/-- The cells with one of them overwritten. -/
def put (cells : Cells Value) (index : Int) (new : Value) : Cells Value :=
  { cells with value := Function.update cells.value index new }

def get (cells : Cells Value) (index : Int) : Option Value :=
  if cells.Inside index then some (cells.value index) else none

def set (cells : Cells Value) (index : Int) (new : Value) : Option (Cells Value) :=
  if cells.Inside index then some (cells.put index new) else none

/-- Every cell holds the same value. -/
def filled (lower upper : Int) (value : Value) : Cells Value := ⟨lower, upper, fun _ => value⟩

/-- The cells of a list, from index zero; the default is never read. -/
def ofList (values : List Value) (default : Value) : Cells Value :=
  ⟨0, values.length - 1, fun index => values.getD index.toNat default⟩

@[simp] theorem inside_put (cells : Cells Value) (index other : Int) (new : Value) :
    (cells.put index new).Inside other ↔ cells.Inside other := Iff.rfl

@[simp] theorem value_put (cells : Cells Value) (index : Int) (new : Value) :
    (cells.put index new).value = Function.update cells.value index new := rfl

theorem get_inside {cells : Cells Value} {index : Int} (inside : cells.Inside index) :
    cells.get index = some (cells.value index) := if_pos inside

theorem set_inside {cells : Cells Value} {index : Int} (inside : cells.Inside index)
    (new : Value) : cells.set index new = some (cells.put index new) := if_pos inside

/-- Memory that is allocated and not yet written. -/
def uninitialised (lower upper : Int) : Cells (Option Value) := filled lower upper none

/-- Reads a cell, which must have been written before. -/
def load (cells : Cells (Option Value)) (index : Int) : Option Value := (cells.get index).join

def store (cells : Cells (Option Value)) (index : Int) (new : Value) :
    Option (Cells (Option Value)) := cells.set index (some new)

theorem load_put_same {cells : Cells (Option Value)} {index : Int}
    (inside : cells.Inside index) (new : Value) :
    (cells.put index (some new)).load index = some new := by
  rw [load, get_inside ((inside_put ..).mpr inside), value_put, Function.update_self]
  rfl

theorem load_put_other {cells : Cells (Option Value)} {index other : Int}
    (different : other ≠ index) (new : Option Value) :
    (cells.put index new).load other = cells.load other := by
  simp only [load, get, inside_put, value_put, Function.update_of_ne different]

/-! ### The cells of a list -/

section OfList

variable {values : List Value} {default : Value} {index other : Int}

theorem inside_ofList (nonneg : 0 ≤ index) (below : index < values.length) :
    (ofList values default).Inside index :=
  ⟨nonneg, by show index ≤ (values.length : Int) - 1; omega⟩

theorem value_ofList (nonneg : 0 ≤ index) (below : index < values.length) :
    (ofList values default).value index = values.get ⟨index.toNat, by omega⟩ := by
  show values.getD index.toNat default = _
  rw [List.getD_eq_getElem?_getD, List.getElem?_eq_getElem (by omega : index.toNat < _)]
  rfl

theorem ofList_mem (nonneg : 0 ≤ index) (below : index < values.length) :
    (ofList values default).value index ∈ values := by
  rw [value_ofList nonneg below]
  exact List.get_mem _ _

theorem ofList_injective (distinct : values.Nodup) (nonneg : 0 ≤ index)
    (below : index < values.length) (nonneg' : 0 ≤ other) (below' : other < values.length)
    (same : (ofList values default).value index = (ofList values default).value other) :
    index = other := by
  rw [value_ofList nonneg below, value_ofList nonneg' below'] at same
  have := Fin.mk.inj ((List.nodup_iff_injective_get.mp distinct) same)
  omega

end OfList

end Cells
