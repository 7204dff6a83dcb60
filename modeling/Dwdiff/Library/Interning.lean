/-
This file says what an interning table is for, without saying how it is stored:
the values seen so far stand in a list without repetition, in the order in which
they were first seen, and the number given to a value is its place in the list.
The list only grows at its end, so a number stays good for ever.
-/

import Mathlib.Data.List.Nodup

namespace Interning

variable {Value : Type} [BEq Value] [LawfulBEq Value] {known values : List Value}
  {value other : Value}

/-- The values seen after one more value. -/
def intern (known : List Value) (value : Value) : List Value :=
  if value ∈ known then known else known ++ [value]

/-- The values seen after a sequence of values. -/
def internAll (known values : List Value) : List Value :=
  values.foldl intern known

theorem intern_known (seen : value ∈ known) : intern known value = known := if_pos seen

theorem intern_fresh (fresh : value ∉ known) : intern known value = known ++ [value] :=
  if_neg fresh

theorem mem_intern (known : List Value) (value : Value) : value ∈ intern known value := by
  by_cases seen : value ∈ known
  · rwa [intern_known seen]
  · simp [intern_fresh seen]

theorem intern_grows (known : List Value) (value : Value) :
    ∃ more, intern known value = known ++ more := by
  by_cases seen : value ∈ known
  · exact ⟨[], by rw [intern_known seen, List.append_nil]⟩
  · exact ⟨[value], intern_fresh seen⟩

theorem intern_nodup (nodup : known.Nodup) (value : Value) : (intern known value).Nodup := by
  by_cases seen : value ∈ known
  · rwa [intern_known seen]
  · rw [intern_fresh seen, List.nodup_append]
    refine ⟨nodup, List.nodup_singleton value, fun first isKnown second isValue same => seen ?_⟩
    rw [List.mem_singleton] at isValue
    rwa [← isValue, ← same]

theorem intern_length_le (known : List Value) (value : Value) :
    (intern known value).length ≤ known.length + 1 := by
  by_cases seen : value ∈ known
  · simp [intern_known seen]
  · simp [intern_fresh seen]

@[simp] theorem internAll_cons (known : List Value) (value : Value) (values : List Value) :
    internAll known (value :: values) = internAll (intern known value) values := rfl

theorem internAll_append (known first second : List Value) :
    internAll known (first ++ second) = internAll (internAll known first) second :=
  List.foldl_append

theorem internAll_known (seen : ∀ value ∈ values, value ∈ known) :
    internAll known values = known := by
  induction values with
  | nil => rfl
  | cons value values inductionHypothesis =>
    obtain ⟨first, rest⟩ := List.forall_mem_cons.mp seen
    rw [internAll_cons, intern_known first, inductionHypothesis rest]

theorem internAll_grows (known values : List Value) :
    ∃ more, internAll known values = known ++ more := by
  induction values generalizing known with
  | nil => exact ⟨[], (List.append_nil known).symm⟩
  | cons value values inductionHypothesis =>
    obtain ⟨one, step⟩ := intern_grows known value
    obtain ⟨more, rest⟩ := inductionHypothesis (intern known value)
    exact ⟨one ++ more, by rw [internAll_cons, rest, step, List.append_assoc]⟩

theorem internAll_length_le (known values : List Value) :
    (internAll known values).length ≤ known.length + values.length := by
  induction values generalizing known with
  | nil => exact Nat.le_refl _
  | cons value values inductionHypothesis =>
    have one := intern_length_le known value
    have rest := inductionHypothesis (intern known value)
    rw [internAll_cons, List.length_cons]
    omega

/-- A value keeps its number when more values are seen. -/
theorem idxOf_internAll (seen : value ∈ known) (values : List Value) :
    (internAll known values).idxOf value = known.idxOf value := by
  obtain ⟨more, grown⟩ := internAll_grows known values
  rw [grown, List.idxOf_append_of_mem seen]

theorem mem_internAll_of_mem (seen : value ∈ known) (values : List Value) :
    value ∈ internAll known values := by
  obtain ⟨more, grown⟩ := internAll_grows known values
  rw [grown]
  exact List.mem_append_left more seen

theorem mem_internAll (isOne : value ∈ values) (known : List Value) :
    value ∈ internAll known values := by
  induction values generalizing known with
  | nil => exact absurd isOne List.not_mem_nil
  | cons head values inductionHypothesis =>
    rcases List.mem_cons.mp isOne with rfl | later
    · exact mem_internAll_of_mem (mem_intern known value) values
    · exact inductionHypothesis later (intern known head)

theorem internAll_nodup (nodup : known.Nodup) (values : List Value) :
    (internAll known values).Nodup := by
  induction values generalizing known with
  | nil => exact nodup
  | cons value values inductionHypothesis =>
    exact inductionHypothesis (intern_nodup nodup value)

theorem mem_of_mem_internAll (seen : value ∈ internAll known values) :
    value ∈ known ∨ value ∈ values := by
  induction values generalizing known with
  | nil => exact Or.inl seen
  | cons head values inductionHypothesis =>
    rcases inductionHypothesis seen with early | later
    · by_cases old : head ∈ known
      · rw [intern_known old] at early
        exact Or.inl early
      · rw [intern_fresh old] at early
        rcases List.mem_append.mp early with isKnown | isHead
        · exact Or.inl isKnown
        · exact Or.inr (List.mem_cons.mpr (Or.inl (List.mem_singleton.mp isHead)))
    · exact Or.inr (List.mem_cons_of_mem head later)

/-- The numbers given to a sequence of values are exactly those below the number of values
seen. -/
theorem mem_map_idxOf_internAll (values : List Value) (number : Nat) :
    number ∈ values.map (internAll [] values).idxOf ↔ number < (internAll [] values).length := by
  rw [List.mem_map]
  constructor
  · rintro ⟨value, isOne, rfl⟩
    exact List.idxOf_lt_length_of_mem (mem_internAll isOne [])
  · intro below
    rcases mem_of_mem_internAll (List.getElem_mem below) with early | isOne
    · exact absurd early List.not_mem_nil
    · refine ⟨_, isOne, ?_⟩
      exact (internAll_nodup List.nodup_nil values).idxOf_getElem number below

/-- Seen values have the same number only if they are the same. -/
theorem idxOf_inj_of_mem (seen : value ∈ known) :
    known.idxOf value = known.idxOf other ↔ value = other :=
  List.idxOf_inj seen

end Interning
