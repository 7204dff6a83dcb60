/-
This file proves that shift_boundaries only moves runs of changes: it always
answers, it never reads or writes outside the flags and their sentinels, and
the flags it leaves arise from the flags it was given by sliding runs over
equal elements. The other file is followed through the number of elements
without a flag.
-/

import Dwdiff.Library.Slide
import Dwdiff.Diff.Analyze

namespace Dwdiff.Diff

open Selection

variable {j : Int} {changed : Cells Bool}

/-- The flags of a file of the given length, with a clear sentinel at each end. -/
structure Flags (length : Int) (flags : Cells Bool) : Prop where
  lower : flags.lower = -1
  upper : flags.upper = length
  first : flags.value (-1) = false
  last : flags.value length = false

section Scans

variable {length : Int} {flags : Cells Bool}

theorem Flags.inside (isFlags : Flags length flags) {place : Int} (low : -1 ≤ place)
    (high : place ≤ length) : flags.Inside place :=
  ⟨by rw [isFlags.lower]; exact low, by rw [isFlags.upper]; exact high⟩

theorem Flags.slide {value : Int → Nat} {flags' : Cells Bool} (isFlags : Flags length flags)
    (lower : flags'.lower = flags.lower) (upper : flags'.upper = flags.upper)
    (slide : Slide value length flags.value flags'.value) : Flags length flags' where
  lower := lower.trans isFlags.lower
  upper := upper.trans isFlags.upper
  first := (slide.outside (Or.inl (by decide))).trans isFlags.first
  last := (slide.outside (Or.inr le_rfl)).trans isFlags.last

/-- The scan upwards stops at the sentinel at the latest. -/
theorem nextClear_total (isFlags : Flags length flags) (low : -1 ≤ j) (high : j ≤ length) :
    ∃ clear, nextClear flags j = some clear ∧ j ≤ clear ∧ clear ≤ length ∧
      flags.value clear = false ∧
        ∀ place, j ≤ place → place < clear → flags.value place = true := by
  refine Loop.run_total
    (fun k => j ≤ k ∧ k ≤ length ∧ ∀ place, j ≤ place → place < k → flags.value place = true)
    (fun k => (length - k).toNat) _ ?_ _ j ⟨le_rfl, high, fun _ _ _ => by omega⟩
    (by rw [isFlags.upper]; omega)
  rintro k ⟨above, below, flagged⟩
  have reads := Cells.get_inside (isFlags.inside (by omega : -1 ≤ k) below)
  cases isFlag : flags.value k with
  | true =>
    have more : k ≠ length := by
      rintro rfl
      rw [isFlags.last] at isFlag
      contradiction
    refine Or.inl ⟨k + 1, by simp [reads, isFlag], ⟨by omega, by omega, fun place low' high' => ?_⟩,
      by dsimp only; omega⟩
    rcases Int.lt_or_eq_of_le (Int.lt_add_one_iff.mp high') with before | rfl
    · exact flagged place low' before
    · exact isFlag
  | false => exact Or.inr ⟨k, by simp [reads, isFlag], above, below, isFlag, flagged⟩

/-- The scan downwards likewise. -/
theorem previousClear_total (isFlags : Flags length flags) (low : -1 ≤ j) (high : j ≤ length) :
    ∃ clear, previousClear flags j = some clear ∧ -1 ≤ clear ∧ clear ≤ j ∧
      flags.value clear = false ∧
        ∀ place, clear < place → place ≤ j → flags.value place = true := by
  refine Loop.run_total
    (fun k => -1 ≤ k ∧ k ≤ j ∧ ∀ place, k < place → place ≤ j → flags.value place = true)
    (fun k => (k + 1).toNat) _ ?_ _ j ⟨low, le_rfl, fun _ _ _ => by omega⟩
    (by rw [isFlags.lower]; omega)
  rintro k ⟨above, below, flagged⟩
  have reads := Cells.get_inside (isFlags.inside above (by omega))
  cases isFlag : flags.value k with
  | true =>
    have more : k ≠ -1 := by
      rintro rfl
      rw [isFlags.first] at isFlag
      contradiction
    refine Or.inl ⟨k - 1, by simp [reads, isFlag], ⟨by omega, by omega, fun place low' high' => ?_⟩,
      by dsimp only; omega⟩
    rcases Int.lt_or_eq_of_le (by omega : k ≤ place) with after | rfl
    · exact flagged place after high'
    · exact isFlag
  | false => exact Or.inr ⟨k, by simp [reads, isFlag], above, below, isFlag, flagged⟩

end Scans

/-! ### A run and the corresponding point of the other file -/

section Moves

variable {value : Int → Nat} {length otherLength : Int} {other : Cells Bool} {origin : Int → Bool}
  {rest : Nat}

/-- The state while a run is moved. The run from `start` up to `i` is not empty and not next to
another one, as many elements without a flag stand before it as before `j`, and at most `rest`
flags stand behind it. -/
structure Aligned (value : Int → Nat) (length otherLength : Int) (other : Cells Bool)
    (origin : Int → Bool) (rest : Nat) (shift : Shift) : Prop where
  flags : Flags length shift.changed
  slides : Slides value length origin shift.changed.value
  nonneg : 0 ≤ shift.start
  le : shift.i ≤ length
  run : Run shift.changed.value shift.start shift.i
  j_nonneg : 0 ≤ shift.j
  j_le : shift.j ≤ otherLength
  clear : other.value shift.j = false
  inStep : count shift.changed.value 0 shift.i = count other.value 0 shift.j
  behind : count (fun place => !shift.changed.value place) shift.i length ≤ rest

variable {shift : Shift}

/-- The flags after a run has been moved back by one. -/
def Shift.movedBack (shift : Shift) : Cells Bool :=
  (shift.changed.put (shift.start - 1) true).put (shift.i - 1) false

theorem Shift.movedBack_value (shift : Shift) (place : Int) :
    shift.movedBack.value place = if place = shift.i - 1 then false
      else if place = shift.start - 1 then true else shift.changed.value place :=
  update_twice ..

section Steps

variable (aligned : Aligned value length otherLength other origin rest shift)

include aligned

/-- What happens to the flags and to `j` when a run is moved back by one. -/
theorem Aligned.back (otherFlags : Flags otherLength other) (positive : 0 < shift.start)
    (same : value (shift.start - 1) = value (shift.i - 1)) :
    shift.changed.set (shift.start - 1) true =
        some (shift.changed.put (shift.start - 1) true) ∧
      (shift.changed.put (shift.start - 1) true).set (shift.i - 1) false = some shift.movedBack ∧
      Flags length shift.movedBack ∧
      ∃ j, previousClear other (shift.j - 1) = some j ∧
        ∀ start, 0 ≤ start → start < shift.start →
          Run shift.movedBack.value start (shift.i - 1) →
          Aligned value length otherLength other origin rest
            ⟨shift.movedBack, start, shift.i - 1, j⟩ := by
  obtain ⟨flags, slides, nonneg, le, run, jNonneg, jLe, clear, inStep, behind⟩ := aligned
  have nonempty := run.nonempty
  have insideStart := flags.inside (by omega : -1 ≤ shift.start - 1) (by omega)
  have insideStop := flags.inside (by omega : -1 ≤ shift.i - 1) (by omega)
  have slide : Slide value length shift.changed.value shift.movedBack.value :=
    .back run positive le same
  have flags' : Flags length shift.movedBack := flags.slide rfl rfl slide
  have changes := shift.movedBack_value
  -- One element without a flag fewer stands before the run.
  have fewer : count shift.changed.value 0 shift.i =
      count shift.changed.value 0 (shift.start - 1) + 1 := by
    rw [count_at _ (by omega : (0 : Int) ≤ shift.start - 1) (by omega) run.before,
      sub_add_cancel, count_flagged _ run.inside, add_zero]
  obtain ⟨j, answer, jLow, jHigh, jClear, between⟩ := previousClear_total otherFlags
    (by omega : -1 ≤ shift.j - 1) (by omega)
  have jNonneg' : 0 ≤ j := by
    by_contra negative
    have none' : count other.value 0 shift.j = 0 := count_flagged other.value
      fun place above below => between place (by omega) (by omega)
    omega
  have fewer' : count other.value 0 shift.j = count other.value 0 j + 1 := by
    have gap : count other.value (j + 1) shift.j = 0 :=
      count_flagged _ fun place above below => between place (by omega) (by omega)
    rw [count_at _ jNonneg' (by omega : j < shift.j) jClear, gap]
  refine ⟨Cells.set_inside insideStart _, Cells.set_inside ((Cells.inside_put ..).mpr insideStop) _,
    flags', j, answer, fun start startNonneg startLt run' => ⟨flags', slides.tail slide,
      startNonneg, by dsimp only; omega, run', jNonneg', by dsimp only; omega, jClear, ?_, ?_⟩⟩
  · have run : count shift.movedBack.value (shift.start - 1) (shift.i - 1) = 0 :=
      count_flagged _ fun place above below => by
        rw [changes, if_neg (by omega)]
        split
        · rfl
        · exact run.inside place (by omega) (by omega)
    have before : count shift.movedBack.value 0 (shift.start - 1) =
        count shift.changed.value 0 (shift.start - 1) :=
      count_congr fun place above below => by rw [changes, if_neg (by omega), if_neg (by omega)]
    dsimp only
    rw [count_append _ (by omega : (0 : Int) ≤ shift.start - 1) (by omega), run, before]
    omega
  · have stop : count (fun place => !shift.movedBack.value place) (shift.i - 1) shift.i = 0 :=
      count_flagged _ fun place above below => by
        rw [changes, if_pos (by omega)]
        rfl
    dsimp only
    rw [count_append _ (by omega : shift.i - 1 ≤ shift.i) le, stop, zero_add]
    refine le_of_eq_of_le (count_congr fun place above below => ?_) behind
    rw [changes, if_neg (by omega), if_neg (by omega)]

/-- One step back, with the runs it meets merged into it. -/
theorem stepBack_total (otherFlags : Flags otherLength other) (positive : 0 < shift.start)
    (same : value (shift.start - 1) = value (shift.i - 1)) :
    ∃ shift', stepBack other shift = some shift' ∧
      Aligned value length otherLength other origin rest shift' ∧ shift'.i = shift.i - 1 ∧
      shift.i - shift.start ≤ shift'.i - shift'.start := by
  obtain ⟨setStart, setStop, flags, j, answer, aligned'⟩ := aligned.back otherFlags positive same
  have nonempty := aligned.run.nonempty
  have le := aligned.le
  have changes := shift.movedBack_value
  obtain ⟨clear, found, low, high, isClear, between⟩ := previousClear_total flags
    (by omega : -1 ≤ shift.start - 2) (by omega)
  refine ⟨⟨shift.movedBack, clear + 1, shift.i - 1, j⟩, ?_, aligned' (clear + 1) (by omega)
    (by omega) ⟨by omega, fun place above below => ?_, ?_, ?_⟩, rfl, by dsimp only; omega⟩
  · unfold stepBack
    simp only [setStart, setStop, found, answer, Option.bind_eq_bind, Option.bind_some]
    rfl
  · rcases lt_or_ge place (shift.start - 1) with before | after
    · exact between place (by omega) (by omega)
    · rw [changes, if_neg (by omega)]
      split
      · rfl
      · exact aligned.run.inside place (by omega) (by omega)
  · rwa [add_sub_cancel_right]
  · rw [changes, if_pos rfl]

/-- One step forward, with the runs it meets merged into it. -/
theorem stepForward_total (otherFlags : Flags otherLength other)
    (balanced : count origin 0 length = count other.value 0 otherLength) (below : shift.i < length)
    (same : value shift.start = value shift.i) (corresponding : Int) :
    ∃ shift' corresponding', stepForward other shift corresponding = some (shift', corresponding') ∧
      Aligned value length otherLength other origin rest shift' ∧
      shift'.start = shift.start + 1 ∧ shift.i + 1 ≤ shift'.i ∧
      (∀ place, place ≤ shift.i → shift'.changed.value place =
        if place = shift.i then true else if place = shift.start then false
        else shift.changed.value place) ∧
      (corresponding' = corresponding ∨ corresponding' = shift'.i) := by
  obtain ⟨flags, slides, nonneg, le, run, jNonneg, jLe, clear, inStep, behind⟩ := aligned
  have nonempty := run.nonempty
  have insideStart := flags.inside (by omega : -1 ≤ shift.start) (by omega)
  have insideStop := flags.inside (by omega : -1 ≤ shift.i) (by omega)
  have slide : Slide value length shift.changed.value _ := .forward run nonneg below same
  have flags' : Flags length ((shift.changed.put shift.start false).put shift.i true) :=
    flags.slide rfl rfl slide
  have changes := update_twice shift.changed.value shift.start shift.i false true
  -- The other file still has an element without a flag at `j`.
  have total : count shift.changed.value 0 length = count other.value 0 otherLength := by
    rw [← balanced, slides.count_eq]
  have split := count_at shift.changed.value (by omega : (0 : Int) ≤ shift.i) below run.after
  have jBelow : shift.j < otherLength := by
    refine lt_of_le_of_ne jLe fun atEnd => ?_
    rw [atEnd] at inStep
    omega
  obtain ⟨stop, foundStop, stopLow, stopHigh, stopClear, stopBetween⟩ := nextClear_total flags'
    (by omega : -1 ≤ shift.i + 1) (by omega)
  obtain ⟨j, foundJ, jLow, jHigh, jClear, jBetween⟩ := nextClear_total otherFlags
    (by omega : -1 ≤ shift.j + 1) (by omega)
  have startClear : Function.update (Function.update shift.changed.value shift.start false)
      shift.i true shift.start = false := by
    rw [changes, if_neg (by omega), if_pos rfl]
  have moved : ∀ place, shift.start + 1 ≤ place → place < stop →
      Function.update (Function.update shift.changed.value shift.start false) shift.i true place =
        true := fun place above below' => by
    rcases lt_or_ge place (shift.i + 1) with before | after
    · rw [changes]
      split
      · rfl
      · rw [if_neg (by omega)]
        exact run.inside place (by omega) (by omega)
    · exact stopBetween place after below'
  refine ⟨⟨(shift.changed.put shift.start false).put shift.i true, shift.start + 1, stop, j⟩,
    if j = shift.j + 1 then corresponding else stop, ?_, ⟨flags', slides.tail slide,
      by dsimp only; omega, stopHigh, ⟨by dsimp only; omega, moved, ?_, stopClear⟩,
      by dsimp only; omega, jHigh, jClear, ?_, ?_⟩, rfl, stopLow, fun place _ => changes place, ?_⟩
  · unfold stepForward
    simp only [Cells.set_inside insideStart, Option.bind_eq_bind, Option.bind_some,
      Cells.set_inside ((Cells.inside_put ..).mpr insideStop), foundStop, foundJ]
    rfl
  · rw [add_sub_cancel_right]
    exact startClear
  · show count (Function.update (Function.update shift.changed.value shift.start false)
      shift.i true) 0 stop = count other.value 0 j
    have before : count (Function.update (Function.update shift.changed.value shift.start false)
        shift.i true) 0 shift.start = count shift.changed.value 0 shift.start :=
      count_congr fun place above below' => by rw [changes, if_neg (by omega), if_neg (by omega)]
    have own : count shift.changed.value 0 shift.i = count shift.changed.value 0 shift.start := by
      rw [count_append _ nonneg nonempty.le, count_flagged _ run.inside, add_zero]
    have gap : count other.value (shift.j + 1) j = 0 := count_flagged _ jBetween
    rw [count_at _ nonneg (by omega : shift.start < stop) startClear, count_flagged _ moved, before,
      ← own, inStep, count_at _ jNonneg (by omega : shift.j < j) clear, gap]
  · show count (fun place => !Function.update (Function.update shift.changed.value shift.start
      false) shift.i true place) stop length ≤ rest
    refine le_trans ?_ behind
    rw [count_append _ (by omega : shift.i ≤ stop) stopHigh]
    refine le_of_eq_of_le (count_congr fun place above below' => ?_) (Nat.le_add_left _ _)
    rw [changes, if_neg (by omega), if_neg (by omega)]
  · split
    · exact Or.inl rfl
    · exact Or.inr rfl

end Steps

/-! ### The loops that move a run -/

/-- The forward moves since `base` met no other run, and can be undone. -/
structure Undoable (value : Int → Nat) (length : Int) (base shift : Shift) (corresponding : Int) :
    Prop where
  le : base.i ≤ shift.i
  sameLength : shift.i - shift.start = base.i - base.start
  equal : ∀ place, base.i ≤ place → place < shift.i →
    value (place - (shift.i - shift.start)) = value place
  clear : ∀ place, base.start - 1 ≤ place → place < shift.start → shift.changed.value place = false
  target : corresponding = length ∨ base.i ≤ corresponding

section Loops

variable {equivs : Cells Nat} (inside : ∀ place, 0 ≤ place → place < length → equivs.Inside place)
  (otherFlags : Flags otherLength other)

include inside otherFlags

theorem moveBack_total (aligned : Aligned equivs.value length otherLength other origin rest shift) :
    ∃ shift', moveBack equivs other shift = some shift' ∧
      Aligned equivs.value length otherLength other origin rest shift' ∧
      shift.i - shift.start ≤ shift'.i - shift'.start := by
  refine Loop.run_total
    (fun current => Aligned equivs.value length otherLength other origin rest current ∧
      shift.i - shift.start ≤ current.i - current.start)
    (fun current => current.i.toNat) _ ?_ _ shift ⟨aligned, le_rfl⟩ (Nat.lt_succ_self _)
  rintro current ⟨aligned, grown⟩
  have nonneg := aligned.nonneg
  have nonempty := aligned.run.nonempty
  have le := aligned.le
  by_cases atStart : current.start = 0
  · exact Or.inr ⟨current, by simp [atStart], aligned, grown⟩
  · have readsStart := Cells.get_inside (inside (current.start - 1) (by omega) (by omega))
    have readsStop := Cells.get_inside (inside (current.i - 1) (by omega) (by omega))
    by_cases same : equivs.value (current.start - 1) = equivs.value (current.i - 1)
    · obtain ⟨shift', answer, aligned', isI, grown'⟩ :=
        stepBack_total aligned otherFlags (by omega) same
      refine Or.inl ⟨shift', ?_, ⟨aligned', by omega⟩, by dsimp only; omega⟩
      simp [atStart, readsStart, readsStop, same, answer]
    · refine Or.inr ⟨current, ?_, aligned, grown⟩
      simp [atStart, readsStart, readsStop, same]

theorem moveForward_total (balanced : count origin 0 length = count other.value 0 otherLength)
    (aligned : Aligned equivs.value length otherLength other origin rest shift)
    {corresponding : Int} (target : corresponding = length ∨ shift.i ≤ corresponding) :
    ∃ result, moveForward equivs other length shift corresponding = some result ∧
      Aligned equivs.value length otherLength other origin rest result.1 ∧
      shift.i - shift.start ≤ result.1.i - result.1.start ∧
      (result.1.i - result.1.start = shift.i - shift.start →
        Undoable equivs.value length shift result.1 result.2) := by
  refine Loop.run_total
    (fun state => Aligned equivs.value length otherLength other origin rest state.1 ∧
      shift.i - shift.start ≤ state.1.i - state.1.start ∧
      (state.1.i - state.1.start = shift.i - shift.start →
        Undoable equivs.value length shift state.1 state.2))
    (fun state => (length - state.1.i).toNat) _ ?_ _ (shift, corresponding)
    ⟨aligned, le_rfl, fun _ => ⟨le_rfl, rfl, fun place above below => absurd below
      (by dsimp only; omega), fun place above below => ?_, target⟩⟩ (Nat.lt_succ_self _)
  · rintro ⟨current, corresponding⟩ ⟨aligned, grown, undoable⟩
    dsimp only at aligned grown undoable
    have nonneg := aligned.nonneg
    have nonempty := aligned.run.nonempty
    have le := aligned.le
    by_cases atStop : current.i = length
    · exact Or.inr ⟨(current, corresponding), by simp [atStop], aligned, grown, undoable⟩
    · have readsStart := Cells.get_inside (inside current.start nonneg (by omega))
      have readsStop := Cells.get_inside (inside current.i (by omega) (by omega))
      by_cases same : equivs.value current.start = equivs.value current.i
      · obtain ⟨shift', corresponding', answer, aligned', isStart, further, values, follows⟩ :=
          stepForward_total aligned otherFlags balanced (by omega) same corresponding
        have le' := aligned'.le
        refine Or.inl ⟨(shift', corresponding'), ?_, ⟨aligned', by dsimp only; omega,
          fun sameLength => ?_⟩, by dsimp only; omega⟩
        · simp [atStop, readsStart, readsStop, same, answer]
        · -- No run was met, so this step and the ones before can be undone.
          dsimp only at sameLength
          obtain ⟨baseLe, -, equal, clear, target⟩ := undoable (by omega)
          refine ⟨by dsimp only; omega, sameLength, fun place above below => ?_,
            fun place above below => ?_, ?_⟩
          · dsimp only at below ⊢
            rcases Int.lt_or_eq_of_le (by omega : place ≤ current.i) with before | rfl
            · rw [show shift'.i - shift'.start = current.i - current.start by omega]
              exact equal place above before
            · rw [show current.i - (shift'.i - shift'.start) = current.start by omega, same]
          · dsimp only at below
            rw [values place (by omega), if_neg (by omega)]
            split
            · rfl
            · exact clear place above (by omega)
          · dsimp only
            rcases follows with rfl | rfl
            · exact target
            · exact Or.inr (by omega)
      · refine Or.inr ⟨(current, corresponding), ?_, aligned, grown, undoable⟩
        simp [atStop, readsStart, readsStop, same]
  · dsimp only at below
    rw [show place = shift.start - 1 by omega]
    exact aligned.run.before

/-- The region is moved back and forth until its run does not grow. -/
theorem settle_total (balanced : count origin 0 length = count other.value 0 otherLength)
    (aligned : Aligned equivs.value length otherLength other origin rest shift) :
    ∃ result, settle equivs other length shift = some result ∧
      Aligned equivs.value length otherLength other origin rest result.1 ∧
      ∃ base, 0 ≤ base.start ∧ Undoable equivs.value length base result.1 result.2 := by
  refine Loop.run_total
    (fun current => Aligned equivs.value length otherLength other origin rest current)
    (fun current => (length - (current.i - current.start)).toNat) _ ?_ _ shift aligned ?_
  · intro current aligned
    obtain ⟨back, movedBack, alignedBack, grown⟩ := moveBack_total inside otherFlags aligned
    have jNonneg := alignedBack.j_nonneg
    have jLe := alignedBack.j_le
    have reads := Cells.get_inside (otherFlags.inside (by omega : -1 ≤ back.j - 1) (by omega))
    have target : (if other.value (back.j - 1) then back.i else length) = length ∨
        back.i ≤ (if other.value (back.j - 1) then back.i else length) := by
      split <;> simp
    obtain ⟨⟨forward, corresponding⟩, movedForward, alignedForward, grown', undoable⟩ :=
      moveForward_total inside otherFlags balanced alignedBack target
    dsimp only at alignedForward grown' undoable
    have nonneg := alignedForward.nonneg
    have le := alignedForward.le
    by_cases same : current.i - current.start = forward.i - forward.start
    · refine Or.inr ⟨(forward, corresponding), ?_, alignedForward, back, alignedBack.nonneg,
        undoable (by omega)⟩
      simp [movedBack, reads, movedForward, same]
    · refine Or.inl ⟨forward, ?_, alignedForward, by dsimp only; omega⟩
      simp [movedBack, reads, movedForward, same]
  · have nonempty := aligned.run.nonempty
    omega

omit inside in
/-- Moving a run back to a corresponding run of the other file undoes forward moves. -/
theorem realign_total {base : Shift} {corresponding : Int} (baseNonneg : 0 ≤ base.start)
    (aligned : Aligned equivs.value length otherLength other origin rest shift)
    (undoable : Undoable equivs.value length base shift corresponding) :
    ∃ shift', realign other corresponding shift = some shift' ∧
      Aligned equivs.value length otherLength other origin rest shift' := by
  refine Loop.run_total
    (fun current => Aligned equivs.value length otherLength other origin rest current ∧
      Undoable equivs.value length base current corresponding)
    (fun current => (current.i - corresponding).toNat) _ ?_ _ shift ⟨aligned, undoable⟩
    (Nat.lt_succ_self _)
  rintro current ⟨aligned, le, sameLength, equal, clear, target⟩
  have nonempty := aligned.run.nonempty
  have atMost := aligned.le
  by_cases more : corresponding < current.i
  · have reached : base.i ≤ corresponding := target.resolve_left fun atEnd => by omega
    have same : equivs.value (current.start - 1) = equivs.value (current.i - 1) := by
      have equal' := equal (current.i - 1) (by omega) (by omega)
      rwa [show current.i - 1 - (current.i - current.start) = current.start - 1 by ring] at equal'
    obtain ⟨setStart, setStop, flags, j, answer, aligned'⟩ :=
      aligned.back otherFlags (by omega) same
    have changes := current.movedBack_value
    refine Or.inl ⟨⟨current.movedBack, current.start - 1, current.i - 1, j⟩, ?_,
      ⟨aligned' _ (by omega) (by omega) ⟨by omega, fun place above below => ?_, ?_, ?_⟩,
        ⟨by dsimp only; omega, by dsimp only; omega, fun place above below => ?_,
          fun place above below => ?_, target⟩⟩, by dsimp only; omega⟩
    · simp [more, setStart, setStop, answer]
    · rw [changes, if_neg (by omega)]
      split
      · rfl
      · exact aligned.run.inside place (by omega) (by omega)
    · rw [changes, if_neg (by omega), if_neg (by omega)]
      exact clear _ (by omega) (by omega)
    · rw [changes, if_pos rfl]
    · dsimp only at below ⊢
      rw [show current.i - 1 - (current.start - 1) = current.i - current.start by ring]
      exact equal place above (by omega)
    · dsimp only at below ⊢
      rw [changes, if_neg (by omega), if_neg (by omega)]
      exact clear place above (by omega)
  · exact Or.inr ⟨current, by simp [more], aligned⟩

/-- One run of changes, from the place where it starts. -/
theorem shiftRun_total {start : Int} (isFlags : Flags length changed)
    (balanced : count origin 0 length = count other.value 0 otherLength)
    (slides : Slides equivs.value length origin changed.value) (nonneg : 0 ≤ start)
    (below : start < length) (flagged : changed.value start = true)
    (before : changed.value (start - 1) = false) (jNonneg : 0 ≤ j) (jLe : j ≤ otherLength)
    (inStep : count changed.value 0 start = count other.value 0 j)
    (behind : count (fun place => !changed.value place) start length = rest + 1) :
    ∃ shift, shiftRun equivs other length changed start j = some shift ∧
      Aligned equivs.value length otherLength other origin rest shift := by
  obtain ⟨i, foundI, iLow, iHigh, iClear, iBetween⟩ := nextClear_total isFlags
    (by omega : -1 ≤ start + 1) (by omega)
  obtain ⟨j', foundJ, jLow, jHigh, jClear, jBetween⟩ := nextClear_total otherFlags
    (by omega : -1 ≤ j) jLe
  have run : Run changed.value start i := by
    refine ⟨by omega, fun place above below' => ?_, before, iClear⟩
    rcases Int.lt_or_eq_of_le above with after | rfl
    · exact iBetween place (by omega) below'
    · exact flagged
  have aligned :
      Aligned equivs.value length otherLength other origin rest ⟨changed, start, i, j'⟩ := by
    refine ⟨isFlags, slides, nonneg, iHigh, run, by dsimp only; omega, jHigh, jClear, ?_, ?_⟩
    · dsimp only
      rw [count_append _ nonneg (by omega : start ≤ i), count_flagged _ run.inside, inStep,
        count_append _ jNonneg jLow, count_flagged _ jBetween]
    · dsimp only
      rw [count_at _ le_rfl below (by simp [flagged]), count_append _ iLow iHigh] at behind
      omega
  obtain ⟨⟨settled, corresponding⟩, answer, aligned', base, baseNonneg, undoable⟩ :=
    settle_total inside otherFlags balanced aligned
  obtain ⟨shift, realigned, aligned''⟩ := realign_total otherFlags baseNonneg aligned' undoable
  refine ⟨shift, ?_, aligned''⟩
  unfold shiftRun
  simp only [foundI, foundJ, answer, Option.bind_eq_bind, Option.bind_some]
  exact realigned

omit inside in
/-- The scan to the next run keeps in step with the other file. -/
theorem nextRun_total {i : Int} (isFlags : Flags length changed)
    (balanced : count changed.value 0 length = count other.value 0 otherLength) (nonneg : 0 ≤ i)
    (le : i ≤ length) (jNonneg : 0 ≤ j) (jLe : j ≤ otherLength)
    (inStep : count changed.value 0 i = count other.value 0 j)
    (apart : changed.value (i - 1) = false ∨ changed.value i = false) :
    ∃ result, nextRun changed other length i j = some result ∧ i ≤ result.1 ∧
      result.1 ≤ length ∧ 0 ≤ result.2 ∧ result.2 ≤ otherLength ∧
      count changed.value 0 result.1 = count other.value 0 result.2 ∧
      (result.1 < length → changed.value result.1 = true ∧
        changed.value (result.1 - 1) = false) := by
  refine Loop.run_total
    (fun state => i ≤ state.1 ∧ state.1 ≤ length ∧ 0 ≤ state.2 ∧ state.2 ≤ otherLength ∧
      count changed.value 0 state.1 = count other.value 0 state.2 ∧
      (changed.value (state.1 - 1) = false ∨ changed.value state.1 = false))
    (fun state => (length - state.1).toNat) _ ?_ _ (i, j)
    ⟨le_rfl, le, jNonneg, jLe, inStep, apart⟩ (Nat.lt_succ_self _)
  rintro ⟨k, j⟩ ⟨above, below, jNonneg, jLe, inStep, apart⟩
  dsimp only at above below jNonneg jLe inStep apart
  by_cases more : k < length
  · have reads := Cells.get_inside (isFlags.inside (by omega : -1 ≤ k) below)
    cases isFlag : changed.value k with
    | true =>
      refine Or.inr ⟨(k, j), by simp [more, reads, isFlag], above, below, jNonneg, jLe, inStep,
        fun _ => ⟨isFlag, apart.resolve_right fun clear => ?_⟩⟩
      rw [isFlag] at clear
      contradiction
    | false =>
      obtain ⟨j', found, low, high, clear, between⟩ := nextClear_total otherFlags
        (by omega : -1 ≤ j) jLe
      have gap : count other.value j j' = 0 := count_flagged _ between
      have upTo' : count other.value 0 j' = count other.value 0 j := by
        rw [count_append _ jNonneg low, gap, add_zero]
      -- The other file has an element without a flag for this one.
      have split := count_at changed.value (by omega : (0 : Int) ≤ k) more isFlag
      have jBelow : j' < otherLength := by
        refine lt_of_le_of_ne high fun atEnd => ?_
        rw [atEnd] at upTo'
        omega
      refine Or.inl ⟨(k + 1, j' + 1), by simp [more, reads, isFlag, found], ⟨by dsimp only; omega,
        by dsimp only; omega, by dsimp only; omega, by dsimp only; omega, ?_, Or.inl ?_⟩,
        by dsimp only; omega⟩
      · dsimp only
        rw [count_at _ (by omega : (0 : Int) ≤ k) (lt_add_one k) isFlag, inStep, ← upTo',
          count_at _ (by omega : (0 : Int) ≤ j') (lt_add_one j') clear, count_of_le _ le_rfl,
          count_of_le _ le_rfl]
      · rwa [add_sub_cancel_right]
  · exact Or.inr ⟨(k, j), by simp [more], above, below, jNonneg, jLe, inStep,
      fun less => absurd less more⟩

end Loops

end Moves

/-- shift_boundaries for one file: the flags arise by sliding runs of changes. -/
theorem shiftBoundaries_total {equivs : List Nat} {other : Cells Bool} {otherLength : Int}
    (isFlags : Flags equivs.length changed) (otherFlags : Flags otherLength other)
    (otherNonneg : 0 ≤ otherLength)
    (balanced : count changed.value 0 equivs.length = count other.value 0 otherLength) :
    ∃ changed', shiftBoundaries equivs changed other = some changed' ∧
      Flags equivs.length changed' ∧
      Slides (Cells.ofList equivs 0).value equivs.length changed.value changed'.value := by
  have inside : ∀ place, 0 ≤ place → place < (equivs.length : Int) →
      (Cells.ofList equivs 0).Inside place := fun place => Cells.inside_ofList
  refine Loop.run_total
    (fun state => Flags equivs.length state.1 ∧
      Slides (Cells.ofList equivs 0).value equivs.length changed.value state.1.value ∧
      0 ≤ state.2.1 ∧ state.2.1 ≤ (equivs.length : Int) ∧ 0 ≤ state.2.2 ∧ state.2.2 ≤ otherLength ∧
      count state.1.value 0 state.2.1 = count other.value 0 state.2.2 ∧
      (state.1.value (state.2.1 - 1) = false ∨ state.1.value state.2.1 = false))
    (fun state => count (fun place => !state.1.value place) state.2.1 equivs.length) _ ?_ _
    (changed, 0, 0) ⟨isFlags, .refl, le_rfl, by dsimp only; omega, le_rfl, otherNonneg, ?_,
      Or.inl isFlags.first⟩ ?_
  · rintro ⟨current, i, j⟩ ⟨isFlags, slides, nonneg, le, jNonneg, jLe, inStep, apart⟩
    dsimp only at isFlags slides nonneg le jNonneg jLe inStep apart
    have balanced' : count current.value 0 equivs.length = count other.value 0 otherLength := by
      rw [← balanced, slides.count_eq]
    obtain ⟨⟨start, k⟩, found, above, below, kNonneg, kLe, inStep', isRun⟩ :=
      nextRun_total otherFlags isFlags balanced' nonneg le jNonneg jLe inStep apart
    dsimp only at above below kNonneg kLe inStep' isRun
    by_cases atEnd : start = (equivs.length : Int)
    · exact Or.inr ⟨current, by simp [found, atEnd], isFlags, slides⟩
    · obtain ⟨flagged, clear⟩ := isRun (by omega)
      have first := @count_at (fun place => !current.value place) start start equivs.length le_rfl
        (by omega) (by simp [flagged])
      rw [count_of_le _ le_rfl, Nat.zero_add, Nat.add_comm] at first
      obtain ⟨shift, answer, aligned⟩ := shiftRun_total inside otherFlags isFlags balanced slides
        (by omega) (by omega) flagged clear kNonneg kLe inStep' first
      refine Or.inl ⟨(shift.changed, shift.i, shift.j), by simp [found, atEnd, answer],
        ⟨aligned.flags, aligned.slides, ?_, aligned.le, aligned.j_nonneg, aligned.j_le,
          aligned.inStep, Or.inr aligned.run.after⟩, ?_⟩
      · have := aligned.nonneg
        have := aligned.run.nonempty
        dsimp only
        omega
      · -- The flag at the start of the run is no longer ahead.
        have behind := aligned.behind
        dsimp only
        rw [count_append _ above (by omega : start ≤ (equivs.length : Int)), first]
        omega
  · dsimp only
    rw [count_of_le _ le_rfl, count_of_le _ le_rfl]
  · dsimp only
    have := count_le (fun place => !changed.value place) (by omega : (0 : Int) ≤ equivs.length)
    omega

/-! ### Both files -/

/-- How many elements of a file have a flag. -/
def flaggedCount (length : Int) (flags : Cells Bool) : Nat :=
  count (fun place => !flags.value place) 0 length

theorem Flags.flaggedCount_eq {length : Int} {flags flags' : Cells Bool} (nonneg : 0 ≤ length)
    (same : count flags'.value 0 length = count flags.value 0 length) :
    flaggedCount length flags' = flaggedCount length flags := by
  have before := count_add_not flags.value nonneg
  have after := count_add_not flags'.value nonneg
  unfold flaggedCount
  omega

/-- shift_boundaries for the two files, one after the other: the second one is compared with
the flags that the first round has left. -/
theorem shiftBoundaries_both {equivs0 equivs1 : List Nat} {changed0 changed1 : Cells Bool}
    (flags0 : Flags equivs0.length changed0) (flags1 : Flags equivs1.length changed1)
    (aligned : kept changed0.value (Cells.ofList equivs0 0).value 0 equivs0.length =
      kept changed1.value (Cells.ofList equivs1 0).value 0 equivs1.length) :
    ∃ changed0' changed1', shiftBoundaries equivs0 changed0 changed1 = some changed0' ∧
      shiftBoundaries equivs1 changed1 changed0' = some changed1' ∧
      Flags equivs0.length changed0' ∧ Flags equivs1.length changed1' ∧
      Slides (Cells.ofList equivs0 0).value equivs0.length changed0.value changed0'.value ∧
      Slides (Cells.ofList equivs1 0).value equivs1.length changed1.value changed1'.value := by
  have balanced :
      count changed0.value 0 equivs0.length = count changed1.value 0 equivs1.length := by
    rw [← kept_length _ (Cells.ofList equivs0 0).value, aligned, kept_length]
  obtain ⟨changed0', shifted0, flags0', slides0⟩ :=
    shiftBoundaries_total flags0 flags1 (Int.natCast_nonneg _) balanced
  have balanced' : count changed1.value 0 equivs1.length =
      count changed0'.value 0 equivs0.length := by
    rw [← balanced, slides0.count_eq]
  obtain ⟨changed1', shifted1, flags1', slides1⟩ :=
    shiftBoundaries_total flags1 flags0' (Int.natCast_nonneg _) balanced'
  exact ⟨changed0', changed1', shifted0, shifted1, flags0', flags1', slides0, slides1⟩

/-- shift_boundaries is harmless: it always answers without leaving the vectors of flags, and
both files keep their sentinels, their number of flags and the elements without a flag. -/
theorem shiftBoundaries_harmless {equivs0 equivs1 : List Nat} {changed0 changed1 : Cells Bool}
    (flags0 : Flags equivs0.length changed0) (flags1 : Flags equivs1.length changed1)
    (aligned : kept changed0.value (Cells.ofList equivs0 0).value 0 equivs0.length =
      kept changed1.value (Cells.ofList equivs1 0).value 0 equivs1.length) :
    ∃ changed0' changed1', shiftBoundaries equivs0 changed0 changed1 = some changed0' ∧
      shiftBoundaries equivs1 changed1 changed0' = some changed1' ∧
      Flags equivs0.length changed0' ∧ Flags equivs1.length changed1' ∧
      flaggedCount equivs0.length changed0' = flaggedCount equivs0.length changed0 ∧
      flaggedCount equivs1.length changed1' = flaggedCount equivs1.length changed1 ∧
      kept changed0'.value (Cells.ofList equivs0 0).value 0 equivs0.length =
        kept changed1'.value (Cells.ofList equivs1 0).value 0 equivs1.length := by
  obtain ⟨changed0', changed1', shifted0, shifted1, flags0', flags1', slides0, slides1⟩ :=
    shiftBoundaries_both flags0 flags1 aligned
  refine ⟨changed0', changed1', shifted0, shifted1, flags0', flags1',
    Flags.flaggedCount_eq (Int.natCast_nonneg _) slides0.count_eq,
    Flags.flaggedCount_eq (Int.natCast_nonneg _) slides1.count_eq, ?_⟩
  rw [slides0.kept_eq, aligned, slides1.kept_eq]

/-- The flags of a file, given as the places that are flagged. -/
def flagsOf (length : Int) (places : List Int) : Cells Bool :=
  ⟨-1, length, fun place => place ∈ places⟩

theorem shiftBoundaries_harmless_small :
    ∃ changed0 changed1, shiftBoundaries [1, 2, 1, 2] (flagsOf 4 [0, 1]) (flagsOf 3 [0]) =
        some changed0 ∧
      shiftBoundaries [3, 1, 2] (flagsOf 3 [0]) changed0 = some changed1 ∧
      Flags 4 changed0 ∧ Flags 3 changed1 ∧
      flaggedCount 4 changed0 = flaggedCount 4 (flagsOf 4 [0, 1]) ∧
      flaggedCount 3 changed1 = flaggedCount 3 (flagsOf 3 [0]) ∧
      kept changed0.value (Cells.ofList [1, 2, 1, 2] 0).value 0 4 =
        kept changed1.value (Cells.ofList [3, 1, 2] 0).value 0 3 :=
  shiftBoundaries_harmless ⟨rfl, rfl, rfl, rfl⟩ ⟨rfl, rfl, rfl, rfl⟩ rfl

end Dwdiff.Diff
