/-
This file is about the matching with context of `doDiff.c`. The words are not
compared one by one: `initializeContextDiffTokens` numbers the windows of
consecutive words instead, with one -1 in the place of the words before the
start and after the end, and the script that the engine finds for the windows is
trimmed to a script for the words. The trimmed script is a valid one.
-/

import Dwdiff.Hashtable
import Dwdiff.Diff.Script
import Dwdiff.Diff.Discard
import Dwdiff.Library.Window

namespace Dwdiff

open Diff Interning Window

variable {words : List Nat} {context : Nat}

/-! ### The windows -/

/-- The bytes of a number in memory, lowest first. -/
def bytesOf : (count : Nat) → Nat → List UInt8
  | 0, _ => []
  | count + 1, value => UInt8.ofNat value :: bytesOf count (value / 256)

/-- The bytes of an array of `ValueType`. -/
def arrayBytes (values : List Int) : List UInt8 :=
  values.flatMap fun value => bytesOf 8 (value % 2 ^ 64).toNat

/-- `initializeContextDiffTokens`. The range is given by its start and its length. -/
def initializeContextDiffTokens (table : Hashtable) (diffTokens : List Nat)
    (range : Option (Int × Int)) (context : Nat) : Except Failure (List Nat × Hashtable) :=
  let (start, dataRange) := range.getD (0, diffTokens.length)
  if 0 ≤ start ∧ start + dataRange ≤ diffTokens.length ∧ context ≤ dataRange then do
    let data := (diffTokens.drop start.toNat).map Int.ofNat
    let whole := dataRange.toNat - context
    let firstEdge := -1 :: data.take context
    let (first, table) ← getValues table
      ((List.range context).map fun i => arrayBytes (firstEdge.take (i + 2)))
    let (middle, table) ← getValues table
      ((List.range whole).map fun i => arrayBytes ((data.drop i).take (context + 1)))
    let lastEdge := (data.drop whole).take context ++ [-1]
    let (last, table) ← getValues table
      ((List.range context).map fun i => arrayBytes ((lastEdge.drop i).take (context - i + 1)))
    let contextDiffTokens := first ++ middle ++ last
    assert (contextDiffTokens.length == dataRange.toNat + context) "idx == dataRange + context"
    .ok (contextDiffTokens, table)
  else .error .undefined

theorem bytesOf_length (count value : Nat) : (bytesOf count value).length = count := by
  induction count generalizing value with
  | zero => rfl
  | succ count inductionHypothesis => rw [bytesOf, List.length_cons, inductionHypothesis]

theorem bytesOf_injective {count value other : Nat} (small : value < 256 ^ count)
    (small' : other < 256 ^ count) (same : bytesOf count value = bytesOf count other) :
    value = other := by
  induction count generalizing value other with
  | zero =>
    rw [pow_zero] at small small'
    omega
  | succ count inductionHypothesis =>
    rw [pow_succ] at small small'
    simp only [bytesOf, List.cons.injEq] at same
    obtain ⟨low, high⟩ := same
    have lowEqual : value % 256 = other % 256 := by
      simpa using congrArg UInt8.toNat low
    have highEqual := inductionHypothesis (by omega) (by omega) high
    omega

/-- A word, or the -1 that stands for the words outside. -/
def IsEntry (value : Int) : Prop := -1 ≤ value ∧ value ≤ valueMax

theorem arrayBytes_length (values : List Int) : (arrayBytes values).length = 8 * values.length := by
  simp [arrayBytes, bytesOf_length, Nat.mul_comm]

theorem arrayBytes_injective {values others : List Int} (entries : ∀ value ∈ values, IsEntry value)
    (entries' : ∀ value ∈ others, IsEntry value) (same : arrayBytes values = arrayBytes others) :
    values = others := by
  induction values generalizing others with
  | nil =>
    cases others with
    | nil => rfl
    | cons other others =>
      have lengths := congrArg List.length same
      rw [arrayBytes_length, arrayBytes_length, List.length_cons, List.length_nil] at lengths
      omega
  | cons value values inductionHypothesis =>
    cases others with
    | nil =>
      have lengths := congrArg List.length same
      rw [arrayBytes_length, arrayBytes_length, List.length_cons, List.length_nil] at lengths
      omega
    | cons other others =>
      simp only [arrayBytes, List.flatMap_cons] at same
      obtain ⟨head, tail⟩ := List.append_inj same (by rw [bytesOf_length, bytesOf_length])
      have entry : IsEntry value := entries value List.mem_cons_self
      have entry' : IsEntry other := entries' other List.mem_cons_self
      have residues := bytesOf_injective (by omega) (by omega) head
      unfold IsEntry valueMax at entry entry'
      rw [inductionHypothesis (fun v isOne => entries v (List.mem_cons_of_mem _ isOne))
        (fun v isOne => entries' v (List.mem_cons_of_mem _ isOne)) tail]
      congr 1
      omega

/-- The windows of a sequence of words, as the table sees them. -/
def gramBytes (words : List Nat) (context : Nat) : List (List UInt8) :=
  (List.range (words.length + context)).map fun index : Nat => arrayBytes (gram words context index)

/-- The three loops go through the windows in order. -/
theorem gramBytes_eq (fits : context ≤ words.length) :
    gramBytes words context =
      ((List.range context).map fun i =>
        arrayBytes ((-1 :: (words.map Int.ofNat).take context).take (i + 2))) ++
      ((List.range (words.length - context)).map fun i =>
        arrayBytes (((words.map Int.ofNat).drop i).take (context + 1))) ++
      (List.range context).map fun i =>
        arrayBytes (((((words.map Int.ofNat).drop (words.length - context)).take context ++
          [-1]).drop i).take (context - i + 1)) := by
  have sizes : words.length + context = context + (words.length - context) + context := by omega
  rw [gramBytes, sizes, List.range_add, List.map_append, List.range_add, List.map_append]
  congr 1
  · congr 1
    · refine List.map_congr_left fun index below => ?_
      have small := List.mem_range.mp below
      rw [gram_first small fits, List.take_succ_cons, List.take_take, min_eq_left (by omega),
        List.map_take]
    · rw [List.map_map]
      refine List.map_congr_left fun index below => ?_
      have small := List.mem_range.mp below
      show arrayBytes (gram words context (context + index : Nat)) = _
      rw [gram_middle (by omega) (by omega), Nat.add_sub_cancel_left, List.map_take, List.map_drop]
  · rw [List.map_map, List.take_of_length_le (by simp; omega)]
    refine List.map_congr_left fun index below => ?_
    have small := List.mem_range.mp below
    show arrayBytes (gram words context (context + (words.length - context) + index : Nat)) = _
    rw [gram_last (by omega) (by omega) fits, List.drop_append_of_le_length (by simp; omega),
      List.drop_drop, List.take_of_length_le (by simp; omega), List.map_drop]
    congr 3
    omega

/-- The part of an array that lies in a range. -/
def sliceOf (diffTokens : List Nat) (start count : Int) : List Nat :=
  (diffTokens.drop start.toNat).take count.toNat

theorem sliceOf_whole (words : List Nat) : sliceOf words 0 words.length = words := by
  simp [sliceOf]

theorem sliceOf_length {diffTokens : List Nat} {start count : Int} (low : 0 ≤ start)
    (high : start + count ≤ diffTokens.length) : (sliceOf diffTokens start count).length =
      count.toNat := by
  rw [sliceOf, List.length_take, List.length_drop]
  omega

theorem mem_of_mem_sliceOf {diffTokens : List Nat} {start count : Int} {word : Nat}
    (isOne : word ∈ sliceOf diffTokens start count) : word ∈ diffTokens :=
  List.mem_of_mem_drop (List.mem_of_mem_take isOne)

/-- A stretch inside the first elements of an array is a stretch of the array. -/
theorem take_drop_take {Value : Type} (values : List Value) {first size count : Nat}
    (inside : first + size ≤ count) :
    ((values.take count).drop first).take size = (values.drop first).take size := by
  rw [List.drop_take, List.take_take, min_eq_left (by omega)]

/-- The windows get their numbers from the table, in order. -/
theorem initializeContextDiffTokens_eq {table : Hashtable} {known : List (List UInt8)}
    (interns : Interns table known) (diffTokens : List Nat) (range : Option (Int × Int))
    {start count : Int} (isRange : range.getD (0, diffTokens.length) = (start, count))
    (low : 0 ≤ start) (high : start + count ≤ diffTokens.length) {context : Nat}
    (fits : context ≤ count) (room : known.length + (count + context) ≤ valueMax) :
    ∃ after, initializeContextDiffTokens table diffTokens range context =
        .ok ((gramBytes (sliceOf diffTokens start count) context).map
          (internAll known (gramBytes (sliceOf diffTokens start count) context)).idxOf, after) ∧
      Interns after (internAll known (gramBytes (sliceOf diffTokens start count) context)) := by
  have size := sliceOf_length low high
  have number : (gramBytes (sliceOf diffTokens start count) context).length =
      count.toNat + context := by
    simp [gramBytes, size]
  obtain ⟨after, values, internsAfter⟩ := getValues_eq interns
    (gramBytes (sliceOf diffTokens start count) context) (by omega)
  refine ⟨after, ?_, internsAfter⟩
  have loops := gramBytes_eq (by omega : context ≤ (sliceOf diffTokens start count).length)
  rw [size, sliceOf, List.map_take] at loops
  have firstPart := @take_drop_take _ ((diffTokens.drop start.toNat).map Int.ofNat) 0 context
    count.toNat (by omega)
  have lastPart := @take_drop_take _ ((diffTokens.drop start.toNat).map Int.ofNat)
    (count.toNat - context) context count.toNat (by omega)
  have middlePart : ∀ i ∈ List.range (count.toNat - context),
      arrayBytes (((((diffTokens.drop start.toNat).map Int.ofNat).take count.toNat).drop i).take
        (context + 1)) =
      arrayBytes ((((diffTokens.drop start.toNat).map Int.ofNat).drop i).take (context + 1)) :=
    fun i below => by
      have small := List.mem_range.mp below
      rw [take_drop_take _ (by omega)]
  rw [List.drop_zero, List.drop_zero] at firstPart
  rw [firstPart, lastPart, List.map_congr_left middlePart] at loops
  obtain ⟨first, table1, middle, table2, last, calls1, calls2, calls3, isValues⟩ :=
    getValues_groups ((congrArg (getValues table) loops).symm.trans values)
  have total : (first ++ middle ++ last).length = count.toNat + context := by
    rw [isValues, List.length_map, number]
  unfold initializeContextDiffTokens
  rw [isRange]
  dsimp only
  rw [if_pos ⟨low, high, fits⟩, calls1]
  dsimp only [ok_bind]
  rw [calls2]
  dsimp only [ok_bind]
  rw [calls3]
  dsimp only [ok_bind]
  rw [total, assert_true (beq_self_eq_true _), isValues, ok_bind]

/-- Two arrays of numbers for the windows of two sequences of words: below the given maximum,
and equal exactly where the windows agree. -/
structure Windowed (old new : List Nat) (context : Nat) (equivs0 equivs1 : List Nat)
    (equivMax : Nat) : Prop where
  length0 : equivs0.length = old.length + context
  length1 : equivs1.length = new.length + context
  small0 : ∀ code ∈ equivs0, code < equivMax
  small1 : ∀ code ∈ equivs1, code < equivMax
  same : ∀ p q, 0 ≤ p → p < (old.length + context : Int) → 0 ≤ q →
    q < (new.length + context : Int) →
    (codeAt equivs0 p = codeAt equivs1 q ↔ Agree (padded old) (padded new) context p q)

theorem gram_entries (bounded : ∀ word ∈ words, word ≤ valueMax) (width place : Int) :
    ∀ value ∈ gram words width place, IsEntry value := by
  intro value isOne
  obtain ⟨index, -, rfl⟩ := List.mem_map.mp isOne
  unfold padded IsEntry
  split
  · next inside =>
    rw [List.getD_eq_getElem?_getD, List.getElem?_eq_getElem (by omega : index.toNat < _)]
    have := bounded _ (List.getElem_mem (by omega : index.toNat < words.length))
    simp only [Option.getD_some]
    omega
  · unfold valueMax
    omega

/-- The number of a window. -/
theorem codeAt_gramBytes (number : List UInt8 → Nat) {place : Int} (low : 0 ≤ place)
    (high : place < (words.length + context : Int)) :
    codeAt ((gramBytes words context).map number) place =
      number (arrayBytes (gram words context place)) := by
  have below : place.toNat < words.length + context := by omega
  rw [codeAt, List.getD_eq_getElem?_getD]
  simp [gramBytes, below, Int.toNat_of_nonneg low]

/-- Windows that were numbered by one table have the same number exactly when they agree. -/
theorem windowed_of_known {old new : List Nat} (wide : 0 < context) (fits0 : context ≤ old.length)
    (fits1 : context ≤ new.length) (bounded0 : ∀ word ∈ old, word ≤ valueMax)
    (bounded1 : ∀ word ∈ new, word ≤ valueMax) {known : List (List UInt8)}
    (seen0 : ∀ data ∈ gramBytes old context, data ∈ known)
    (seen1 : ∀ data ∈ gramBytes new context, data ∈ known) :
    Windowed old new context ((gramBytes old context).map known.idxOf)
      ((gramBytes new context).map known.idxOf) known.length where
  length0 := by simp [gramBytes]
  length1 := by simp [gramBytes]
  small0 := fun code isOne => by
    obtain ⟨data, isData, rfl⟩ := List.mem_map.mp isOne
    exact List.idxOf_lt_length_iff.mpr (seen0 data isData)
  small1 := fun code isOne => by
    obtain ⟨data, isData, rfl⟩ := List.mem_map.mp isOne
    exact List.idxOf_lt_length_iff.mpr (seen1 data isData)
  same := fun p q low0 high0 low1 high1 => by
    have isData : arrayBytes (gram old context p) ∈ gramBytes old context :=
      List.mem_map.mpr ⟨p.toNat, List.mem_range.mpr (by omega), by rw [Int.toNat_of_nonneg low0]⟩
    rw [codeAt_gramBytes _ low0 high0, codeAt_gramBytes _ low1 high1,
      idxOf_inj_of_mem (seen0 _ isData)]
    constructor
    · intro equal
      exact agree_of_gram_eq (by omega) (by omega) (by omega) low0 high0 low1 high1
        (arrayBytes_injective (gram_entries bounded0 _ _) (gram_entries bounded1 _ _) equal)
    · intro agree
      rw [gram_eq_of_agree (by omega) (by omega) (by omega) low0 high0 low1 high1 agree]

/-- The two calls that `doDiffInternal` makes, on a table that is empty. -/
theorem contextDiffTokens_total {oldTokens newTokens : List Nat}
    {range0 range1 : Option (Int × Int)} {start0 count0 start1 count1 : Int}
    (isRange0 : range0.getD (0, oldTokens.length) = (start0, count0))
    (isRange1 : range1.getD (0, newTokens.length) = (start1, count1))
    (low0 : 0 ≤ start0) (high0 : start0 + count0 ≤ oldTokens.length)
    (low1 : 0 ≤ start1) (high1 : start1 + count1 ≤ newTokens.length) {context : Nat}
    (wide : 0 < context) (fits0 : context ≤ count0) (fits1 : context ≤ count1)
    (bounded0 : ∀ word ∈ oldTokens, word ≤ valueMax)
    (bounded1 : ∀ word ∈ newTokens, word ≤ valueMax)
    (room : 2 * (oldTokens.length + newTokens.length) ≤ valueMax) :
    ∃ equivs0 table0 equivs1 table1,
      initializeContextDiffTokens Hashtable.empty oldTokens range0 context =
        .ok (equivs0, table0) ∧
      initializeContextDiffTokens table0 newTokens range1 context = .ok (equivs1, table1) ∧
      Windowed (sliceOf oldTokens start0 count0) (sliceOf newTokens start1 count1) context
        equivs0 equivs1 table1.nextValue := by
  have size0 := sliceOf_length low0 high0
  have size1 := sliceOf_length low1 high1
  obtain ⟨table0, calls0, interns0⟩ := initializeContextDiffTokens_eq Interns.empty oldTokens
    range0 isRange0 low0 high0 fits0 (by rw [List.length_nil, Nat.cast_zero]; omega)
  have few := internAll_length_le [] (gramBytes (sliceOf oldTokens start0 count0) context)
  have number : (gramBytes (sliceOf oldTokens start0 count0) context).length =
      count0.toNat + context := by simp [gramBytes, size0]
  rw [List.length_nil, number] at few
  obtain ⟨table1, calls1, interns1⟩ := initializeContextDiffTokens_eq interns0 newTokens
    range1 isRange1 low1 high1 fits1 (by omega)
  refine ⟨_, table0, _, table1, calls0, calls1, ?_⟩
  have stable : ∀ data ∈ gramBytes (sliceOf oldTokens start0 count0) context, _ :=
    fun data isData => (idxOf_internAll (mem_internAll isData [])
      (gramBytes (sliceOf newTokens start1 count1) context)).symm
  rw [List.map_congr_left stable, interns1.nextValue]
  have fitsOld : context ≤ (sliceOf oldTokens start0 count0).length := by omega
  have fitsNew : context ≤ (sliceOf newTokens start1 count1).length := by omega
  exact windowed_of_known wide fitsOld fitsNew
    (fun word isOne => bounded0 word (mem_of_mem_sliceOf isOne))
    (fun word isOne => bounded1 word (mem_of_mem_sliceOf isOne))
    (fun data isData => mem_internAll_of_mem (mem_internAll isData []) _)
    fun data isData => mem_internAll isData _

end Dwdiff
