/-
This file models `hashtable.c`: byte strings are numbered in the order in which
they are first seen, in a table of 8091 chains that is emptied by `getHashMax`.
The table is exact: whatever the hash function does, equal numbers mean equal
strings.
-/

import Dwdiff.Stream
import Dwdiff.Library.Interning
import Mathlib.Algebra.Group.Int.Defs
import Mathlib.Algebra.Group.Nat.Defs
import Mathlib.Logic.Function.Basic

namespace Dwdiff

open Interning

variable {after : Hashtable}

/-- `VALUE_MAX`, the largest `lin`. -/
def valueMax : Nat := 2 ^ 63 - 1

/-- `HASHTABLE_SIZE`. -/
def hashtableSize : Nat := 8091

/-- A `Tuple`. Its `stringLength` is the length of its string, and `next` is the rest of the
chain it stands in. -/
structure Tuple where
  value : Nat
  string : List UInt8
  deriving DecidableEq, Repr

/-- The static variables of `hashtable.c`. -/
structure Hashtable where
  chain : Nat → List Tuple
  nextValue : Nat

/-- The table at the start of the program, and after `getHashMax`. -/
def Hashtable.empty : Hashtable where
  chain := fun _ => []
  nextValue := 0

/-- `hash`, the djb2 hash function in 32-bit arithmetic. -/
def hash (data : List UInt8) : Nat :=
  data.foldl (fun hashValue byte => (hashValue <<< 5 + hashValue + byte.toNat) % 2 ^ 32) 5381

def getValue (table : Hashtable) (data : List UInt8) : Except Failure (Nat × Hashtable) :=
  let hashValue := hash data % hashtableSize
  match (table.chain hashValue).find? fun tuple => tuple.string == data with
  | some tuple => .ok (tuple.value, table)
  | none => do
    assert (table.nextValue != valueMax) "nextValue != VALUE_MAX"
    .ok (table.nextValue,
      { chain := Function.update table.chain hashValue
          (⟨table.nextValue, data⟩ :: table.chain hashValue)
        nextValue := table.nextValue + 1 })

/-- Successive calls of `getValue`. -/
def getValues : Hashtable → List (List UInt8) → Except Failure (List Nat × Hashtable)
  | table, [] => .ok ([], table)
  | table, data :: datas => do
    let (value, table) ← getValue table data
    let (values, table) ← getValues table datas
    .ok (value :: values, table)

def getHashMax (table : Hashtable) : Nat × Hashtable :=
  (table.nextValue, Hashtable.empty)

/-- The table holds exactly the `known` strings, each in its chain and with its number. -/
structure Interns (table : Hashtable) (known : List (List UInt8)) : Prop where
  nodup : known.Nodup
  nextValue : table.nextValue = known.length
  mem : ∀ bucket tuple, tuple ∈ table.chain bucket ↔
    known[tuple.value]? = some tuple.string ∧ bucket = hash tuple.string % hashtableSize

theorem Interns.empty : Interns Hashtable.empty [] where
  nodup := List.nodup_nil
  nextValue := rfl
  mem := fun bucket tuple => by simp [Hashtable.empty]

variable {table : Hashtable} {known : List (List UInt8)} {data : List UInt8}

section Interned

variable (interns : Interns table known)

include interns

/-- The chain of a string tells its number. -/
theorem Interns.find_known (seen : data ∈ known) :
    (table.chain (hash data % hashtableSize)).find? (fun tuple => tuple.string == data) =
      some ⟨known.idxOf data, data⟩ := by
  have place : known[known.idxOf data]? = some data := by
    rw [List.getElem?_eq_getElem (List.idxOf_lt_length_iff.mpr seen), List.getElem_idxOf]
  cases found : (table.chain (hash data % hashtableSize)).find?
      (fun tuple => tuple.string == data) with
  | none =>
    have present := (interns.mem _ ⟨known.idxOf data, data⟩).mpr ⟨place, rfl⟩
    have absent := List.find?_eq_none.mp found _ present
    simp at absent
  | some tuple =>
    have isData : tuple.string = data := by simpa using List.find?_some found
    obtain ⟨lookup, -⟩ := (interns.mem _ tuple).mp (List.mem_of_find?_eq_some found)
    rw [isData] at lookup
    have bound := (List.getElem?_eq_some_iff.mp lookup).1
    have same : tuple.value = known.idxOf data :=
      (List.getElem?_inj bound interns.nodup).mp (lookup.trans place.symm)
    rw [← same, ← isData]

theorem Interns.find_fresh (fresh : data ∉ known) :
    (table.chain (hash data % hashtableSize)).find? (fun tuple => tuple.string == data) = none := by
  refine List.find?_eq_none.mpr fun tuple isMember isData => fresh ?_
  obtain ⟨lookup, -⟩ := (interns.mem _ tuple).mp isMember
  rw [← eq_of_beq isData]
  exact List.mem_of_getElem? lookup

/-- A new string takes the next number and goes to the front of its chain. -/
theorem Interns.insert (fresh : data ∉ known) :
    Interns
      { chain := Function.update table.chain (hash data % hashtableSize)
          (⟨table.nextValue, data⟩ :: table.chain (hash data % hashtableSize))
        nextValue := table.nextValue + 1 }
      (known ++ [data]) where
  nodup := by
    rw [← intern_fresh fresh]
    exact intern_nodup interns.nodup data
  nextValue := by simp [interns.nextValue]
  mem := fun bucket tuple => by
    have place : (known ++ [data])[tuple.value]? = some tuple.string ↔
        known[tuple.value]? = some tuple.string ∨ tuple = ⟨table.nextValue, data⟩ := by
      rw [List.getElem?_append, interns.nextValue]
      obtain ⟨value, string⟩ := tuple
      dsimp only
      split
      · next below => simp [Nat.ne_of_lt below]
      · next above =>
        rw [List.getElem?_eq_none (by omega : known.length ≤ value), List.getElem?_singleton]
        simp only [Tuple.mk.injEq, reduceCtorEq, false_or]
        constructor
        · intro last
          split at last
          · exact ⟨by omega, (Option.some.inj last).symm⟩
          · exact absurd last (by simp)
        · rintro ⟨rfl, rfl⟩
          simp
    rw [place]
    dsimp only
    by_cases same : bucket = hash data % hashtableSize
    · subst same
      rw [Function.update_self, List.mem_cons, interns.mem]
      constructor
      · rintro (rfl | ⟨isKnown, chained⟩)
        · exact ⟨Or.inr rfl, rfl⟩
        · exact ⟨Or.inl isKnown, chained⟩
      · rintro ⟨isKnown | rfl, chained⟩
        · exact Or.inr ⟨isKnown, chained⟩
        · exact Or.inl rfl
    · rw [Function.update_of_ne same, interns.mem]
      constructor
      · rintro ⟨isKnown, chained⟩
        exact ⟨Or.inl isKnown, chained⟩
      · rintro ⟨isKnown | rfl, chained⟩
        · exact ⟨isKnown, chained⟩
        · exact absurd chained same

/-- `getValue` numbers the strings in the order in which they are first seen. -/
theorem getValue_eq (data : List UInt8) (room : known.length < valueMax) :
    ∃ after, getValue table data = .ok ((intern known data).idxOf data, after) ∧
      Interns after (intern known data) := by
  unfold getValue
  by_cases seen : data ∈ known
  · rw [intern_known seen]
    exact ⟨table, by simp only [interns.find_known seen], interns⟩
  · rw [intern_fresh seen]
    refine ⟨_, ?_, interns.insert seen⟩
    have unequal : table.nextValue ≠ valueMax := by
      rw [interns.nextValue]
      omega
    have last : (known ++ [data]).idxOf data = table.nextValue := by
      rw [List.idxOf_append_of_notMem seen, interns.nextValue]
      simp
    simp only [interns.find_fresh seen, assert_true (bne_iff_ne.mpr unequal), ok_bind, last]

theorem getValues_eq (datas : List (List UInt8)) (room : known.length + datas.length ≤ valueMax) :
    ∃ after, getValues table datas = .ok (datas.map (internAll known datas).idxOf, after) ∧
      Interns after (internAll known datas) := by
  induction datas generalizing table known with
  | nil => exact ⟨table, rfl, interns⟩
  | cons data datas inductionHypothesis =>
    rw [List.length_cons] at room
    obtain ⟨next, first, interned⟩ := getValue_eq interns data (by omega)
    have grown := intern_length_le known data
    obtain ⟨after, rest, internedAll⟩ := inductionHypothesis interned (by omega)
    refine ⟨after, ?_, internedAll⟩
    have stable := idxOf_internAll (mem_intern known data) datas
    simp only [getValues, first, ok_bind, rest, List.map_cons, internAll_cons, stable]

/-- Calls that return, however many strings they number. -/
theorem getValue_returns {value : Nat} (returns : getValue table data = .ok (value, after)) :
    value = (intern known data).idxOf data ∧ Interns after (intern known data) := by
  unfold getValue at returns
  by_cases seen : data ∈ known
  · simp only [interns.find_known seen, Except.ok.injEq, Prod.mk.injEq] at returns
    obtain ⟨rfl, rfl⟩ := returns
    rw [intern_known seen]
    exact ⟨rfl, interns⟩
  · simp only [interns.find_fresh seen] at returns
    obtain ⟨_, -, returns⟩ := bind_eq_ok.mp returns
    cases returns
    rw [intern_fresh seen, List.idxOf_append_of_notMem seen, interns.nextValue]
    exact ⟨by simp, interns.nextValue ▸ interns.insert seen⟩

theorem getValues_returns {datas : List (List UInt8)} {values : List Nat}
    (returns : getValues table datas = .ok (values, after)) :
    values = datas.map (internAll known datas).idxOf ∧
      Interns after (internAll known datas) := by
  induction datas generalizing table known values with
  | nil =>
    cases returns
    exact ⟨rfl, interns⟩
  | cons data datas inductionHypothesis =>
    obtain ⟨⟨value, next⟩, first, returns⟩ := bind_eq_ok.mp returns
    obtain ⟨⟨others, last⟩, rest, returns⟩ := bind_eq_ok.mp returns
    cases returns
    obtain ⟨rfl, interned⟩ := getValue_returns interns first
    obtain ⟨rfl, internedAll⟩ := inductionHypothesis interned rest
    refine ⟨?_, internedAll⟩
    rw [List.map_cons, internAll_cons, idxOf_internAll (mem_intern known data) datas]

end Interned

theorem getValues_append (table : Hashtable) (first second : List (List UInt8)) :
    getValues table (first ++ second) = (do
      let (values, table) ← getValues table first
      let (others, table) ← getValues table second
      .ok (values ++ others, table)) := by
  induction first generalizing table with
  | nil =>
    cases rest : getValues table second with
    | error failure | ok answer => simp [getValues, rest]
  | cons data datas inductionHypothesis =>
    simp only [List.cons_append, getValues, inductionHypothesis, bind_assoc, ok_bind]

/-- A table in which nothing is remembered: the one at program start, or one that `getHashMax`
has left behind. -/
def Hashtable.Fresh (table : Hashtable) : Prop :=
  table = .empty ∨ ∃ before, table = (getHashMax before).2

theorem Hashtable.Fresh.interns (fresh : table.Fresh) : Interns table [] := by
  rcases fresh with rfl | ⟨before, rfl⟩
  · exact Interns.empty
  · exact Interns.empty

/-- Between two calls of `getHashMax` the numbering is exact. The calls return as long as there
are numbers left; when they do, equal values mean equal strings, the values are those below what
the next `getHashMax` returns, and that call forgets every string. -/
theorem getValues_exact {table : Hashtable} (fresh : table.Fresh) (datas : List (List UInt8)) :
    (datas.length ≤ valueMax → ∃ values after, getValues table datas = .ok (values, after)) ∧
    ∀ values after, getValues table datas = .ok (values, after) →
      values.length = datas.length ∧
      (∀ first second, first < datas.length → second < datas.length →
        (values[first]? = values[second]? ↔ datas[first]? = datas[second]?)) ∧
      (∀ value, value ∈ values ↔ value < (getHashMax after).1) ∧
      (getHashMax after).2 = .empty ∧
      ∀ data, ∃ next, getValue (getHashMax after).2 data = .ok (0, next) := by
  refine ⟨fun few => ?_, fun values after returns => ?_⟩
  · obtain ⟨after, returns, -⟩ := getValues_eq fresh.interns datas (by simpa using few)
    exact ⟨_, after, returns⟩
  · obtain ⟨rfl, interned⟩ := getValues_returns fresh.interns returns
    refine ⟨List.length_map _, fun first second isFirst isSecond => ?_, fun value => ?_, rfl,
      fun data => ?_⟩
    · rw [List.getElem?_map, List.getElem?_map, List.getElem?_eq_getElem isFirst,
        List.getElem?_eq_getElem isSecond, Option.map_some, Option.map_some, Option.some_inj,
        Option.some_inj]
      exact idxOf_inj_of_mem (mem_internAll (List.getElem_mem isFirst) [])
    · rw [mem_map_idxOf_internAll, getHashMax, interned.nextValue]
    · obtain ⟨next, first, -⟩ := getValue_eq Interns.empty data (by decide)
      refine ⟨next, ?_⟩
      rw [intern_fresh List.not_mem_nil, List.nil_append, List.idxOf_cons_self] at first
      exact first

theorem getValues_exact_empty : Hashtable.empty.Fresh ∧
    ∃ values after, getValues .empty [[97], [], [97]] = .ok (values, after) ∧
      ∀ value, value ∈ values ↔ value < (getHashMax after).1 := by
  have fresh : Hashtable.empty.Fresh := Or.inl rfl
  obtain ⟨returns, exact⟩ := getValues_exact fresh [[97], [], [97]]
  obtain ⟨values, after, calls⟩ := returns (by decide)
  exact ⟨fresh, values, after, calls, (exact values after calls).2.2.1⟩

/-- Calls in three groups, as one sequence of calls. -/
theorem getValues_groups {first second third : List (List UInt8)} {values : List Nat}
    (calls : getValues table (first ++ second ++ third) = .ok (values, after)) :
    ∃ values1 table1 values2 table2 values3, getValues table first = .ok (values1, table1) ∧
      getValues table1 second = .ok (values2, table2) ∧
      getValues table2 third = .ok (values3, after) ∧ values1 ++ values2 ++ values3 = values := by
  rw [getValues_append, getValues_append, bind_assoc] at calls
  obtain ⟨⟨values1, table1⟩, calls1, calls⟩ := bind_eq_ok.mp calls
  rw [bind_assoc] at calls
  obtain ⟨⟨values2, table2⟩, calls2, calls⟩ := bind_eq_ok.mp calls
  rw [ok_bind] at calls
  obtain ⟨⟨values3, table3⟩, calls3, calls⟩ := bind_eq_ok.mp calls
  obtain ⟨isValues, rfl⟩ := Prod.mk.inj (Except.ok.inj calls)
  exact ⟨values1, table1, values2, table2, values3, calls1, calls2, calls3, isValues⟩

end Dwdiff
