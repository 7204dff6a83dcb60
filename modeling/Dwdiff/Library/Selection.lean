/-
This file is about a sequence of values some of whose places are flagged, as a
difference engine leaves it: the values at the places that are not flagged, in
order, over any range of places.
-/

import Mathlib.Data.Int.Range
import Mathlib.Data.List.Basic
import Mathlib.Tactic.Ring

namespace Selection

variable {Value : Type} {first last middle i : Int} {flagged' : Int → Bool}
  {blocks : List (Int × Int)}

theorem range_of_le (empty : last ≤ first) : Int.range first last = [] := by
  rw [Int.range, Int.toNat_of_nonpos (by omega)]
  rfl

theorem range_append (low : first ≤ middle) (high : middle ≤ last) :
    Int.range first last = Int.range first middle ++ Int.range middle last := by
  have sizes : (last - first).toNat = (middle - first).toNat + (last - middle).toNat := by omega
  have shift : ((middle - first).toNat : Int) = middle - first := Int.toNat_of_nonneg (by omega)
  simp only [Int.range, sizes, List.range_add, List.map_append, List.map_map]
  congr 1
  refine List.map_congr_left fun index _ => ?_
  show first + ((((middle - first).toNat + index : Nat)) : Int) = middle + index
  rw [Nat.cast_add, shift]
  ring

theorem range_single (place : Int) : Int.range place (place + 1) = [place] := by
  simp [Int.range]

theorem range_succ (ordered : first ≤ last) :
    Int.range first (last + 1) = Int.range first last ++ [last] := by
  rw [range_append ordered (by omega : last ≤ last + 1), range_single]

/-- The values of the range whose places are not flagged. -/
def kept (flagged : Int → Bool) (value : Int → Value) (first last : Int) : List Value :=
  ((Int.range first last).filter fun place => !flagged place).map value

variable (flagged : Int → Bool) (value : Int → Value)

theorem kept_of_le (empty : last ≤ first) : kept flagged value first last = [] := by
  rw [kept, range_of_le empty]
  rfl

theorem kept_append (low : first ≤ middle) (high : middle ≤ last) :
    kept flagged value first last =
      kept flagged value first middle ++ kept flagged value middle last := by
  simp only [kept, range_append low high, List.filter_append, List.map_append]

theorem kept_append_append {second third : Int} (low : first ≤ second) (middle : second ≤ third)
    (high : third ≤ last) :
    kept flagged value first last = kept flagged value first second ++
      (kept flagged value second third ++ kept flagged value third last) := by
  rw [← kept_append _ _ middle high, ← kept_append _ _ low (middle.trans high)]

theorem kept_single {place : Int} (present : flagged place = false) :
    kept flagged value place (place + 1) = [value place] := by
  simp [kept, range_single, present]

/-- Only the flags and the values inside the range matter. -/
theorem kept_congr {flagged : Int → Bool} {value value' : Int → Value}
    (flags : ∀ place, first ≤ place → place < last → flagged place = flagged' place)
    (values : ∀ place, first ≤ place → place < last → flagged place = false →
      value place = value' place) :
    kept flagged value first last = kept flagged' value' first last := by
  have filters : (Int.range first last).filter (fun place => !flagged place) =
      (Int.range first last).filter (fun place => !flagged' place) := by
    refine List.filter_congr fun place member => ?_
    have bounds := Int.mem_range_iff.mp member
    rw [flags place bounds.1 bounds.2]
  rw [kept, kept, ← filters]
  refine List.map_congr_left fun place member => ?_
  rw [List.mem_filter, Int.mem_range_iff] at member
  exact values place member.1.1 member.1.2 (by simpa using member.2)

theorem mem_kept {element : Value} :
    element ∈ kept flagged value first last ↔
      ∃ place, first ≤ place ∧ place < last ∧ flagged place = false ∧ value place = element := by
  simp only [kept, List.mem_map, List.mem_filter, Int.mem_range_iff, Bool.not_eq_true',
    and_assoc]

/-- A place whose value is not among those kept is flagged. -/
theorem flagged_of_not_mem {place : Int} (low : first ≤ place) (high : place < last)
    (absent : value place ∉ kept flagged value first last) : flagged place = true := by
  rw [← Bool.not_eq_false]
  exact fun present => absent ((mem_kept flagged value).mpr ⟨place, low, high, present, rfl⟩)

/-- Where a value that is kept occurs only once, the flags are those of the values that are not
kept. -/
theorem flag_of_kept [DecidableEq Value] {keeps : List Value}
    (isKept : kept flagged value first last = keeps)
    (once : ∀ place other, first ≤ place → place < last → first ≤ other → other < last →
      value place ∈ keeps → value other = value place → other = place) {place : Int}
    (low : first ≤ place) (high : place < last) : flagged place = decide (value place ∉ keeps) := by
  by_cases member : value place ∈ keeps
  · rw [decide_eq_false (not_not.mpr member)]
    obtain ⟨other, low', high', present, isValue⟩ := (mem_kept flagged value).mp (isKept ▸ member)
    rwa [once place other low high low' high' member isValue] at present
  · rw [decide_eq_true member]
    exact flagged_of_not_mem flagged value low high (isKept ▸ member)

/-- A range with every place flagged keeps nothing. -/
theorem kept_flagged (skipped : ∀ place, first ≤ place → place < last → flagged place = true) :
    kept flagged value first last = [] := by
  refine List.eq_nil_iff_forall_not_mem.mpr fun element member => ?_
  obtain ⟨place, low, high, present, -⟩ := (mem_kept flagged value).mp member
  rw [skipped place low high] at present
  contradiction

/-- A range with no place flagged keeps everything, in particular one value per place. -/
theorem kept_unflagged_length (ordered : first ≤ last)
    (present : ∀ place, first ≤ place → place < last → flagged place = false) :
    ((kept flagged value first last).length : Int) = last - first := by
  have all : (Int.range first last).filter (fun place => !flagged place) =
      Int.range first last := by
    refine List.filter_eq_self.mpr fun place member => ?_
    have bounds := Int.mem_range_iff.mp member
    simp [present place bounds.1 bounds.2]
  rw [kept, all, List.length_map, Int.range, List.length_map, List.length_range,
    Int.toNat_of_nonneg (by omega)]

/-- Two ranges without a flag that hold the same values, one shifted against the other, keep
the same list. -/
theorem kept_shifted {value' : Int → Value} (shift : Int)
    (present : ∀ place, first ≤ place → place < last → flagged place = false)
    (present' : ∀ place, first ≤ place → place < last → flagged' (place - shift) = false)
    (same : ∀ place, first ≤ place → place < last → value place = value' (place - shift)) :
    kept flagged value first last = kept flagged' value' (first - shift) (last - shift) := by
  have ranges : Int.range (first - shift) (last - shift) =
      (Int.range first last).map fun place => place - shift := by
    simp only [Int.range, List.map_map, show last - shift - (first - shift) = last - first by ring]
    refine List.map_congr_left fun index _ => ?_
    show first - shift + index = first + index - shift
    ring
  rw [kept, kept, ranges, List.filter_map, List.map_map]
  have filters : (Int.range first last).filter (fun place => !flagged place) =
      (Int.range first last).filter
        ((fun place => !flagged' place) ∘ fun place => place - shift) := by
    refine List.filter_congr fun place member => ?_
    have bounds := Int.mem_range_iff.mp member
    simp only [Function.comp, present place bounds.1 bounds.2, present' place bounds.1 bounds.2]
  rw [← filters]
  refine List.map_congr_left fun place member => ?_
  rw [List.mem_filter, Int.mem_range_iff] at member
  exact same place member.1.1 member.1.2

/-! ### Numbering some of the places -/

theorem range_nodup (first last : Int) : (Int.range first last).Nodup :=
  List.Pairwise.map _ (fun _ _ different same => different (by omega)) List.nodup_range

/-- The places of a list, looked up by their numbers. -/
theorem map_range_getD {Place : Type} (places : List Place) (default : Place) :
    (Int.range 0 places.length).map (fun index => places.getD index.toNat default) = places := by
  refine List.ext_getElem (by simp [Int.range]) fun index low high => ?_
  simp [Int.range, high]

theorem filter_chosen {flagged chosen : Int → Bool}
    (isChosen : ∀ place, first ≤ place → place < last → flagged place = false →
      chosen place = true) :
    (Int.range first last).filter (fun place => !flagged place) =
      ((Int.range first last).filter chosen).filter fun place => !flagged place := by
  rw [List.filter_filter]
  refine List.filter_congr fun place member => ?_
  have bounds := Int.mem_range_iff.mp member
  cases present : flagged place with
  | false => rw [isChosen place bounds.1 bounds.2 present]; rfl
  | true => rfl

/-- When all the other places are flagged, only the numbered places have to be looked at. -/
theorem kept_numbered (chosen : Int → Bool)
    (skipped : ∀ place, 0 ≤ place → place < last → chosen place = false → flagged place = true) :
    kept flagged value 0 last =
      kept (fun index => flagged (((Int.range 0 last).filter chosen).getD index.toNat 0))
        (fun index => value (((Int.range 0 last).filter chosen).getD index.toNat 0)) 0
        ((Int.range 0 last).filter chosen).length := by
  rw [kept, filter_chosen fun place nonneg below present => by
    by_contra other
    rw [skipped place nonneg below (Bool.eq_false_iff.mpr other)] at present
    contradiction]
  nth_rewrite 1 [← map_range_getD ((Int.range 0 last).filter chosen) 0]
  rw [List.filter_map, List.map_map]
  rfl

/-! ### How many places are kept -/

/-- The number of places of the range without a flag. -/
def count (first last : Int) : Nat := (kept flagged id first last).length

theorem kept_length (first last : Int) :
    (kept flagged value first last).length = count flagged first last := by
  simp only [count, kept, List.length_map]

theorem count_of_le (empty : last ≤ first) : count flagged first last = 0 := by
  rw [count, kept_of_le flagged id empty]
  rfl

theorem count_append (low : first ≤ middle) (high : middle ≤ last) :
    count flagged first last = count flagged first middle + count flagged middle last := by
  rw [count, kept_append flagged id low high, List.length_append]
  rfl

theorem count_single {place : Int} (present : flagged place = false) :
    count flagged place (place + 1) = 1 := by
  rw [count, kept_single flagged id present]
  rfl

/-- What is kept before and behind a place that is kept itself. -/
theorem count_at {first place last : Int} (low : first ≤ place) (high : place < last)
    (present : flagged place = false) :
    count flagged first last =
      count flagged first place + 1 + count flagged (place + 1) last := by
  rw [count_append _ low high.le, count_append _ (by omega : place ≤ place + 1) (by omega),
    count_single _ present, ← add_assoc]

theorem count_flagged (skipped : ∀ place, first ≤ place → place < last → flagged place = true) :
    count flagged first last = 0 := by
  rw [count, kept_flagged flagged id skipped]
  rfl

theorem count_congr {flagged : Int → Bool}
    (flags : ∀ place, first ≤ place → place < last → flagged place = flagged' place) :
    count flagged first last = count flagged' first last := by
  rw [count, kept_congr flags fun _ _ _ _ => rfl]
  rfl

theorem count_le (ordered : first ≤ last) : (count flagged first last : Int) ≤ last - first := by
  have length := List.length_filter_le (fun place => !flagged place) (Int.range first last)
  rw [Int.range, List.length_map, List.length_range, ← Int.range] at length
  rw [count, kept, List.length_map]
  omega

/-- A place is either flagged or kept. -/
theorem count_add_not (ordered : first ≤ last) :
    (count flagged first last : Int) + count (fun place => !flagged place) first last =
      last - first := by
  have split := List.length_eq_length_filter_add (l := Int.range first last)
    fun place => !flagged place
  rw [Int.range, List.length_map, List.length_range, ← Int.range] at split
  rw [count, kept, List.length_map, count, kept, List.length_map]
  omega

/-- Places without a flag are kept one by one. -/
theorem count_unflagged (ordered : first ≤ last)
    (present : ∀ place, first ≤ place → place < last → flagged place = false) :
    (count flagged first last : Int) = last - first :=
  kept_unflagged_length flagged id ordered present

theorem kept_sublist (first last : Int) :
    (kept flagged value first last).Sublist ((Int.range first last).map value) :=
  List.filter_sublist.map value

/-- Every place without a flag is one of the chosen ones. -/
theorem kept_sublist_chosen {chosen : Int → Bool}
    (isChosen : ∀ place, first ≤ place → place < last → flagged place = false →
      chosen place = true) :
    (kept flagged value first last).Sublist (((Int.range first last).filter chosen).map value) := by
  rw [kept, filter_chosen isChosen]
  exact List.filter_sublist.map value

/-- Nothing of a flagged stretch is kept. -/
theorem kept_around {start stop : Int} (low : start ≤ first) (ordered : first ≤ last)
    (high : last ≤ stop) (skipped : ∀ place, first ≤ place → place < last → flagged place = true) :
    kept flagged value start stop =
      kept flagged value start first ++ kept flagged value last stop := by
  rw [kept_append flagged value low (ordered.trans high), kept_append flagged value ordered high,
    kept_flagged flagged value skipped, List.nil_append]

/-- The flags of a stretch of places taken away. -/
def uncover (first last : Int) (place : Int) : Bool :=
  flagged place && !(decide (first ≤ place) && decide (place < last))

/-- All values of the uncovered stretch are kept, the others as before. -/
theorem kept_uncover {start stop : Int} (low : start ≤ first) (ordered : first ≤ last)
    (high : last ≤ stop) :
    kept (uncover flagged first last) value start stop = kept flagged value start first ++
      ((Int.range first last).map value ++ kept flagged value last stop) := by
  have outside : ∀ place, place < first ∨ last ≤ place →
      uncover flagged first last place = flagged place := fun place out => by
    have away : (decide (first ≤ place) && decide (place < last)) = false := by
      rw [← Bool.decide_and, decide_eq_false_iff_not]
      omega
    rw [uncover, away, Bool.not_false, Bool.and_true]
  have inside : (Int.range first last).filter (fun place => !uncover flagged first last place) =
      Int.range first last := by
    refine List.filter_eq_self.mpr fun place member => ?_
    have bounds := Int.mem_range_iff.mp member
    rw [uncover, decide_eq_true bounds.1, decide_eq_true bounds.2, Bool.and_self, Bool.not_true,
      Bool.and_false, Bool.not_false]
  rw [kept_append _ value low (ordered.trans high), kept_append _ value ordered high,
    kept_congr (fun place _ below => outside place (Or.inl below)) fun _ _ _ _ => rfl,
    kept_congr (fun place above _ => outside place (Or.inr above)) fun _ _ _ _ => rfl]
  congr 2
  rw [kept, inside]

/-! ### Blocks of flagged places -/

/-- The flagged places from `i` on are those of the given blocks, which are in order. A block is
a place and a size. -/
def Blocks (flagged : Int → Bool) (last : Int) : (i : Int) → List (Int × Int) → Prop
  | i, [] => i ≤ last ∧ ∀ place, i ≤ place → place < last → flagged place = false
  | i, (start, size) :: rest =>
    (i ≤ start ∧ ∀ place, i ≤ place → place < start → flagged place = false) ∧
    (0 ≤ size ∧ ∀ place, start ≤ place → place < start + size → flagged place = true) ∧
    Blocks flagged last (start + size) rest

variable {flagged}

theorem Blocks.le (isBlocks : Blocks flagged last i blocks) : i ≤ last := by
  induction blocks generalizing i with
  | nil => exact isBlocks.1
  | cons block rest inductionHypothesis =>
    obtain ⟨⟨low, -⟩, ⟨nonneg, -⟩, tail⟩ := isBlocks
    have := inductionHypothesis tail
    omega

/-- One more place without a flag in front. -/
theorem Blocks.extend (isBlocks : Blocks flagged last i blocks)
    (present : flagged (i - 1) = false) : Blocks flagged last (i - 1) blocks := by
  have clear : ∀ stop, (∀ place, i ≤ place → place < stop → flagged place = false) →
      ∀ place, i - 1 ≤ place → place < stop → flagged place = false := by
    intro stop absent place low high
    rcases Int.lt_or_eq_of_le low with later | rfl
    · exact absent place (by omega) high
    · exact present
  cases blocks with
  | nil => exact ⟨by have := isBlocks.1; omega, clear _ isBlocks.2⟩
  | cons block rest =>
    obtain ⟨⟨low, absent⟩, sized, tail⟩ := isBlocks
    exact ⟨⟨by omega, clear _ absent⟩, sized, tail⟩

/-- What is not kept is in the blocks. -/
theorem Blocks.count_add (isBlocks : Blocks flagged last i blocks) :
    (count flagged i last : Int) + (blocks.map Prod.snd).sum = last - i := by
  induction blocks generalizing i with
  | nil =>
    rw [count_unflagged flagged isBlocks.1 isBlocks.2]
    simp
  | cons block rest inductionHypothesis =>
    obtain ⟨⟨low, absent⟩, ⟨nonneg, present⟩, tail⟩ := isBlocks
    have after := inductionHypothesis tail
    have high := tail.le
    have before := count_unflagged flagged low absent
    rw [count_append flagged low (by omega : block.1 ≤ last),
      count_append flagged (by omega : block.1 ≤ block.1 + block.2) high,
      count_flagged flagged present, List.map_cons, List.sum_cons]
    push_cast
    omega

end Selection
