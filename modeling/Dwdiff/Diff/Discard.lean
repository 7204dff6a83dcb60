/-
This file proves what discard_confusing_lines does. It always answers, the
elements that are compared keep their order, and every other element carries a
flag. An element is left out only inside a run of such elements that starts and
ends with elements the other file does not have.
-/

import Dwdiff.Library.Selection
import Dwdiff.Diff.Analyze

namespace Dwdiff.Diff

open Selection

variable {length last first j minimum : Int} {equivs other : List Nat} {equivMax : Nat}
  {after : Cells Mark} {counts : Cells Nat}

/-! ### Counting the elements of each class -/

/-- The counts hold, for every class, the elements seen so far on top of the earlier ones. -/
theorem countEquivs_from (equivMax : Nat) :
    ∀ (equivs : List Nat) (counts : Cells Nat), counts.lower = 0 → counts.upper = equivMax - 1 →
      (∀ code ∈ equivs, code < equivMax) →
      ∃ counts', equivs.foldlM (fun counts (code : Nat) => do
          let count ← counts.get code
          counts.set code (count + 1)) counts = some counts' ∧
        counts'.lower = 0 ∧ counts'.upper = equivMax - 1 ∧
        ∀ code : Nat, counts'.value code = counts.value code + equivs.count code
  | [], counts, lower, upper, _ => ⟨counts, rfl, lower, upper, fun _ => rfl⟩
  | code :: rest, counts, lower, upper, small => by
    have inside : counts.Inside code :=
      ⟨by omega, by have := small code List.mem_cons_self; omega⟩
    obtain ⟨counts', answer, lower', upper', total⟩ := countEquivs_from equivMax rest
      (counts.put code (counts.value code + 1)) lower upper
      fun code member => small code (List.mem_cons_of_mem _ member)
    refine ⟨counts', ?_, lower', upper', fun other => ?_⟩
    · rw [List.foldlM_cons, Cells.get_inside inside, ← answer]
      simp only [Option.bind_eq_bind, Option.bind_some, Cells.set_inside inside]
    · rw [total, Cells.value_put, List.count_cons]
      by_cases same : other = code
      · subst same
        rw [Function.update_self]
        simp only [beq_self_eq_true, if_true]
        omega
      · rw [Function.update_of_ne (by exact_mod_cast same)]
        simp [Ne.symm same]

theorem countEquivs_total (small : ∀ code ∈ equivs, code < equivMax) :
    ∃ counts, countEquivs equivMax equivs = some counts ∧ counts.lower = 0 ∧
      counts.upper = equivMax - 1 ∧ ∀ code : Nat, counts.value code = equivs.count code := by
  obtain ⟨counts, answer, lower, upper, total⟩ := countEquivs_from equivMax equivs
    (Cells.filled 0 (equivMax - 1) 0) rfl rfl small
  refine ⟨counts, answer, lower, upper, fun code => ?_⟩
  rw [total]
  exact Nat.zero_add _

/-! ### Marks that only get weaker -/

/-- From the place `first` on, some provisional discards have been cancelled. -/
structure Weakened (first : Int) (before after : Cells Mark) : Prop where
  lower : after.lower = before.lower
  upper : after.upper = before.upper
  value : ∀ place, after.value place = before.value place ∨
    first ≤ place ∧ before.value place = .provisional ∧ after.value place = .keep

namespace Weakened

variable {first : Int} {before between after : Cells Mark}

theorem refl : Weakened first before before := ⟨rfl, rfl, fun _ => Or.inl rfl⟩

theorem trans (one : Weakened first before between) (two : Weakened first between after) :
    Weakened first before after where
  lower := two.lower.trans one.lower
  upper := two.upper.trans one.upper
  value := fun place => by
    rcases one.value place with same | ⟨from', was, is⟩
    · rw [← same]
      exact two.value place
    · refine Or.inr ⟨from', was, ?_⟩
      rcases two.value place with same | ⟨-, was', -⟩
      · rw [same, is]
      · rw [is] at was'
        contradiction

theorem put {place : Int} (was : before.value place = .provisional) (from' : first ≤ place) :
    Weakened first before (before.put place .keep) where
  lower := rfl
  upper := rfl
  value := fun other => by
    rw [Cells.value_put]
    by_cases same : other = place
    · subst same
      exact Or.inr ⟨from', was, Function.update_self ..⟩
    · exact Or.inl (Function.update_of_ne same ..)

theorem inside (weakened : Weakened first before after) {place : Int}
    (within : before.Inside place) : after.Inside place :=
  ⟨weakened.lower ▸ within.1, weakened.upper ▸ within.2⟩

/-- A real discard stays, and none is added. -/
theorem discard_iff (weakened : Weakened first before after) (place : Int) :
    after.value place = .discard ↔ before.value place = .discard := by
  rcases weakened.value place with same | ⟨-, was, is⟩
  · rw [same]
  · rw [was, is]
    exact ⟨fun absurd' => by contradiction, fun absurd' => by contradiction⟩

theorem before_eq (weakened : Weakened first before after) {place : Int} (below : place < first) :
    after.value place = before.value place := by
  rcases weakened.value place with same | ⟨from', -, -⟩
  · exact same
  · omega

end Weakened

/-! ### The loops over one run -/

section Run

variable {discards : Cells Mark} {stop i : Int}

/-- The run reaches over places that are marked, and has at least one. -/
theorem runEnd_total (start : i < stop) (inside : ∀ place, i ≤ place → place < stop →
    discards.Inside place) (mark : discards.value i = .discard) :
    ∃ result, runEnd discards stop i = some result ∧ i < result.1 ∧ result.1 ≤ stop ∧
      ∀ place, i ≤ place → place < result.1 → discards.value place ≠ .keep := by
  refine Loop.run_total
    (fun state => i ≤ state.1 ∧ state.1 ≤ stop ∧
      ∀ place, i ≤ place → place < state.1 → discards.value place ≠ .keep)
    (fun state => (stop - state.1).toNat) _ ?_ _ (i, 0)
    ⟨le_rfl, start.le, fun place above below => absurd below (by dsimp only; omega)⟩
    (Nat.lt_succ_self _)
  rintro ⟨j, provisional⟩ ⟨above, below, marked⟩
  dsimp only at above below marked
  by_cases within : j < stop
  · have reads := Cells.get_inside (inside j above within)
    have goesOn : discards.value j ≠ .keep → ∀ place, i ≤ place → place < j + 1 →
        discards.value place ≠ .keep := fun marks place above' below' => by
      rcases Int.lt_or_eq_of_le (Int.lt_add_one_iff.mp below') with before | rfl
      · exact marked place above' before
      · exact marks
    cases isMark : discards.value j with
    | keep =>
      refine Or.inr ⟨(j, provisional), by simp [within, reads, isMark], ?_, below, marked⟩
      refine lt_of_le_of_ne above fun same => ?_
      rw [same, isMark] at mark
      contradiction
    | discard =>
      exact Or.inl ⟨(j + 1, provisional), by simp [within, reads, isMark], ⟨by dsimp only; omega,
        by dsimp only; omega, goesOn (by simp [isMark])⟩, by dsimp only; omega⟩
    | provisional =>
      exact Or.inl ⟨(j + 1, provisional + 1), by simp [within, reads, isMark],
        ⟨by dsimp only; omega, by dsimp only; omega, goesOn (by simp [isMark])⟩,
        by dsimp only; omega⟩
  · exact Or.inr ⟨(j, provisional), by simp [within], by dsimp only; omega, below, marked⟩

/-- The run has been shrunk to end with a real discard. -/
theorem trimRun_total (provisional : Int) (start : i < j)
    (inside : ∀ place, i ≤ place → place < j → discards.Inside place)
    (mark : discards.value i = .discard)
    (marked : ∀ place, i ≤ place → place < j → discards.value place ≠ .keep) :
    ∃ result, trimRun i discards j provisional = some result ∧ Weakened i discards result.1 ∧
      i < result.2.1 ∧ result.2.1 ≤ j ∧ result.1.value (result.2.1 - 1) = .discard ∧
      ∀ place, place < result.2.1 → result.1.value place = discards.value place := by
  refine Loop.run_total
    (fun state => Weakened i discards state.1 ∧ i < state.2.1 ∧ state.2.1 ≤ j ∧
      ∀ place, place < state.2.1 → state.1.value place = discards.value place)
    (fun state => (state.2.1 - i).toNat) _ ?_ _ (discards, j, provisional)
    ⟨.refl, start, le_rfl, fun _ _ => rfl⟩ (Nat.lt_succ_self _)
  rintro ⟨current, k, provisional⟩ ⟨weakened, above, below, same⟩
  dsimp only at weakened above below same
  have within := weakened.inside (inside (k - 1) (by omega) (by omega))
  have reads := Cells.get_inside within
  have unmarked := same (k - 1) (by omega)
  have notKeep := marked (k - 1) (by omega) (by omega)
  by_cases isMark : current.value (k - 1) = .provisional
  · refine Or.inl ⟨(current.put (k - 1) .keep, k - 1, provisional - 1), ?_,
      ⟨weakened.trans (.put isMark (by omega)), ?_, by dsimp only; omega,
        fun place lower => ?_⟩, by dsimp only; omega⟩
    · simp [above, reads, isMark, Cells.set_inside within]
    · -- The place `i` itself holds a real discard.
      dsimp only
      refine lt_of_le_of_ne (by omega) fun isFirst => ?_
      rw [← isFirst, mark] at unmarked
      rw [← isFirst, unmarked] at isMark
      contradiction
    · dsimp only at lower
      rw [Cells.value_put, Function.update_of_ne (by omega)]
      exact same place (by omega)
  · refine Or.inr ⟨(current, k, provisional), by simp [above, reads, isMark], weakened, above,
      below, ?_, same⟩
    rw [← unmarked] at notKeep
    cases isMark' : current.value (k - 1) with
    | keep => exact absurd isMark' notKeep
    | discard => rfl
    | provisional => exact absurd isMark' isMark

theorem cancelAll_total (start : i ≤ j)
    (inside : ∀ place, i ≤ place → place < j → discards.Inside place) :
    ∃ discards', cancelAll i discards j = some discards' ∧ Weakened i discards discards' := by
  refine Loop.run_total
    (fun state => Weakened i discards state.1 ∧ i ≤ state.2 ∧ state.2 ≤ j)
    (fun state => (state.2 - i).toNat) _ ?_ _ (discards, j) ⟨.refl, start, le_rfl⟩
    (Nat.lt_succ_self _)
  rintro ⟨current, k⟩ ⟨weakened, above, below⟩
  dsimp only at weakened above below
  by_cases more : k > i
  · have within := weakened.inside (inside (k - 1) (by omega) (by omega))
    have reads := Cells.get_inside within
    by_cases isMark : current.value (k - 1) = .provisional
    · exact Or.inl ⟨(current.put (k - 1) .keep, k - 1),
        by simp [more, reads, isMark, Cells.set_inside within],
        ⟨weakened.trans (.put isMark (by omega)), by dsimp only; omega, by dsimp only; omega⟩,
        by dsimp only; omega⟩
    · exact Or.inl ⟨(current, k - 1), by simp [more, reads, isMark],
        ⟨weakened, by dsimp only; omega, by dsimp only; omega⟩, by dsimp only; omega⟩
  · exact Or.inr ⟨current, by simp [more], weakened⟩

/-- No provisional discard stands next to an element that is kept. -/
def Smooth (discards : Cells Mark) (first last : Int) : Prop :=
  ∀ place, first ≤ place → place + 1 < last →
    ¬ (discards.value place = .provisional ∧ discards.value (place + 1) = .keep) ∧
    ¬ (discards.value place = .keep ∧ discards.value (place + 1) = .provisional)

/-- Where the scan for subruns can still go back to. -/
def settledUpTo (minimum j consec : Int) : Int := if consec < minimum then j - consec else j

/-- The state of the scan for subruns of provisionals: either it counts the provisionals just
before `j`, or it is cancelling a subrun. -/
structure Scanning (original : Cells Mark) (i length minimum : Int) (current : Cells Mark)
    (j consec : Int) : Prop where
  weakened : Weakened i original current
  nonneg : 0 ≤ j
  le : j ≤ length
  consec_nonneg : 0 ≤ consec
  ahead : ∀ place, i + j ≤ place → current.value place = original.value place
  smooth : Smooth current i (i + j)
  counting : consec < minimum → consec ≤ j ∧
    (∀ place, i + (j - consec) ≤ place → place < i + j → current.value place = .provisional) ∧
    (0 < j - consec → current.value (i + (j - consec) - 1) = .discard)
  cancelling : minimum ≤ consec → 0 < j → current.value (i + j - 1) ≠ .provisional

/-- The measure of the scan: places that are not settled, then what is left to count. -/
def scanLeft (length minimum j consec : Int) : Nat :=
  (length - settledUpTo minimum j consec).toNat * (minimum + 2).toNat +
    (if consec < minimum then minimum - consec + 1 else 0).toNat

theorem scanLeft_lt {consec j' consec' : Int} (consecNonneg : 0 ≤ consec')
    (positive : 0 < minimum) (within : settledUpTo minimum j consec < length)
    (further : settledUpTo minimum j consec < settledUpTo minimum j' consec') :
    scanLeft length minimum j' consec' < scanLeft length minimum j consec := by
  unfold scanLeft
  have inner : (if consec' < minimum then minimum - consec' + 1 else 0).toNat <
      (minimum + 2).toNat := by
    split <;> omega
  have outer : (length - settledUpTo minimum j' consec').toNat + 1 ≤
      (length - settledUpTo minimum j consec).toNat := by
    omega
  calc _ < (length - settledUpTo minimum j' consec').toNat * (minimum + 2).toNat +
        (minimum + 2).toNat := Nat.add_lt_add_left inner _
    _ = ((length - settledUpTo minimum j' consec').toNat + 1) * (minimum + 2).toNat := by ring
    _ ≤ (length - settledUpTo minimum j consec).toNat * (minimum + 2).toNat :=
      Nat.mul_le_mul_right _ outer
    _ ≤ _ := Nat.le_add_right _ _

theorem Smooth.extend {current : Cells Mark} (smooth : Smooth current first last)
    (joins : first < last →
      ¬ (current.value (last - 1) = .provisional ∧ current.value last = .keep) ∧
      ¬ (current.value (last - 1) = .keep ∧ current.value last = .provisional)) :
    Smooth current first (last + 1) := by
  intro place above below
  rcases Int.lt_or_eq_of_le (Int.lt_add_one_iff.mp below) with before | isLast
  · exact smooth place above before
  · have joined := joins (by omega)
    rwa [← isLast, add_sub_cancel_right] at joined

/-- One element of the scan. -/
theorem cancelSubrunsStep_scans {current : Cells Mark} {consec : Int} (positive : 0 < minimum)
    (inside : ∀ place, i ≤ place → place < i + length → discards.Inside place)
    (marked : ∀ place, i ≤ place → place < i + length → discards.value place ≠ .keep)
    (scanning : Scanning discards i length minimum current j consec) (more : j < length) :
    ∃ current' j' consec', cancelSubrunsStep i length minimum (current, j, consec) =
        some (.inl (current', j', consec')) ∧
      Scanning discards i length minimum current' j' consec' ∧
      scanLeft length minimum j' consec' < scanLeft length minimum j consec := by
  obtain ⟨weakened, nonneg, le, consecNonneg, ahead, smooth, counting, cancelling⟩ := scanning
  have within := weakened.inside (inside (i + j) (by omega) (by omega))
  have reads := Cells.get_inside within
  have notKeep : current.value (i + j) ≠ .keep := by
    rw [ahead _ le_rfl]
    exact marked _ (by omega) (by omega)
  have settled : settledUpTo minimum j consec < length := by
    unfold settledUpTo
    split <;> omega
  unfold cancelSubrunsStep
  simp only [if_pos more, reads, Option.bind_eq_bind, Option.bind_some]
  by_cases isMark : current.value (i + j) = .provisional
  · rw [if_neg (by simpa using isMark)]
    by_cases full : minimum = consec + 1
    · -- Back up to the start of the subrun.
      obtain ⟨fewer, counted, start⟩ := counting (by omega)
      rw [if_pos full]
      refine ⟨current, j - (consec + 1) + 1, consec + 1, rfl, ⟨weakened, by omega, by omega,
        by omega, fun place above => ?_, fun place above below => smooth place above (by omega),
        fun less => by omega, fun _ later => ?_⟩, ?_⟩
      · rcases lt_or_ge place (i + j) with before | after
        · rw [counted place (by omega) before]
          rcases weakened.value place with same | ⟨-, was, is⟩
          · rw [← same, counted place (by omega) before]
          · exact was.symm
        · exact ahead place after
      · rw [show i + (j - (consec + 1) + 1) - 1 = i + (j - consec) - 1 by ring, start (by omega)]
        simp
      · unfold scanLeft settledUpTo
        rw [if_neg (by omega), if_neg (by omega), if_pos (by omega), if_pos (by omega),
          show j - (consec + 1) + 1 = j - consec by ring]
        omega
    · rw [if_neg full]
      by_cases many : minimum < consec + 1
      · rw [if_pos many, Cells.set_inside within]
        refine ⟨current.put (i + j) .keep, j + 1, consec + 1, rfl,
          ⟨weakened.trans (.put isMark (by omega)), by omega, by omega, by omega,
          fun place above => ?_, ?_, fun less => by omega, fun _ _ => ?_⟩,
          scanLeft_lt (by omega) positive settled ?_⟩
        · rw [Cells.value_put, Function.update_of_ne (by omega)]
          exact ahead place (by omega)
        · rw [← add_assoc]
          refine Smooth.extend (fun place above below => ?_) fun later => ?_
          · rw [Cells.value_put, Function.update_of_ne (by omega), Function.update_of_ne (by omega)]
            exact smooth place above below
          · rw [Cells.value_put, Function.update_of_ne (by omega), Function.update_self]
            have := cancelling (by omega) (by omega)
            simp [this]
        · rw [show i + (j + 1) - 1 = i + j by ring, Cells.value_put, Function.update_self]
          simp
        · unfold settledUpTo
          rw [if_neg (by omega), if_neg (by omega)]
          omega
      · rw [if_neg many]
        obtain ⟨fewer, counted, start⟩ := counting (by omega)
        refine ⟨current, j + 1, consec + 1, rfl, ⟨weakened, by omega, by omega, by omega,
          fun place above => ahead place (by omega), ?_, fun _ => ⟨by omega, ?_, ?_⟩,
          fun less => by omega⟩, ?_⟩
        · rw [← add_assoc]
          refine smooth.extend fun later => ?_
          rw [isMark]
          by_cases first : consec = 0
          · have := start (by omega)
            rw [first, sub_zero] at this
            simp [this]
          · rw [counted (i + j - 1) (by omega) (by omega)]
            simp
        · intro place above below
          rcases lt_or_ge place (i + j) with before | after
          · exact counted place (by omega) before
          · rw [show place = i + j by omega]
            exact isMark
        · intro later
          rw [show j + 1 - (consec + 1) = j - consec by ring]
          exact start (by omega)
        · unfold scanLeft settledUpTo
          rw [if_pos (by omega), if_pos (by omega), if_pos (by omega), if_pos (by omega),
            show j + 1 - (consec + 1) = j - consec by ring]
          omega
  · rw [if_pos (by simpa using isMark)]
    have isDiscard : current.value (i + j) = .discard := by
      cases isMark' : current.value (i + j) with
      | keep => exact absurd isMark' notKeep
      | discard => rfl
      | provisional => exact absurd isMark' isMark
    refine ⟨current, j + 1, 0, rfl, ⟨weakened, by omega, by omega, le_rfl,
      fun place above => ahead place (by omega), ?_, fun _ => ⟨by omega, fun place above below =>
        by omega, fun _ => ?_⟩, fun less => by omega⟩, scanLeft_lt le_rfl positive settled ?_⟩
    · rw [← add_assoc]
      refine smooth.extend fun later => ?_
      simp [isDiscard]
    · rw [show i + (j + 1 - 0) - 1 = i + j by ring]
      exact isDiscard
    · unfold settledUpTo
      rw [if_pos positive]
      split <;> omega

theorem cancelSubruns_total (positive : 0 < minimum) (size : 0 ≤ length)
    (inside : ∀ place, i ≤ place → place < i + length → discards.Inside place)
    (marked : ∀ place, i ≤ place → place < i + length → discards.value place ≠ .keep) :
    ∃ discards', cancelSubruns i length minimum discards = some discards' ∧
      Weakened i discards discards' ∧ Smooth discards' i (i + length) := by
  have starts : Scanning discards i length minimum discards 0 0 :=
    ⟨.refl, le_rfl, size, le_rfl, fun _ _ => rfl, fun place above below => by omega,
      fun _ => ⟨le_rfl, fun place above below => by omega, fun later => by omega⟩,
      fun less => by omega⟩
  refine Loop.run_total
    (fun state => Scanning discards i length minimum state.1 state.2.1 state.2.2)
    (fun state => scanLeft length minimum state.2.1 state.2.2) _ ?_ _ (discards, 0, 0) starts ?_
  · rintro ⟨current, j, consec⟩ scanning
    dsimp only at scanning
    by_cases more : j < length
    · obtain ⟨current', j', consec', steps, scanning', smaller⟩ :=
        cancelSubrunsStep_scans positive inside marked scanning more
      exact Or.inl ⟨_, steps, scanning', smaller⟩
    · refine Or.inr ⟨current, by simp [cancelSubrunsStep, more], scanning.weakened, ?_⟩
      have := scanning.le
      have := scanning.smooth
      rwa [show j = length by omega] at this
  · unfold scanLeft settledUpTo
    dsimp only
    rw [if_pos positive, if_pos positive, Int.toNat_mul (by omega) (by omega)]
    have : (length + 1).toNat = length.toNat + 1 := by omega
    rw [this, Nat.add_mul, show length - (0 - 0) = length by ring]
    omega

/-- The scan from one end: up to some point no provisional is left, there stands a real
discard, and beyond it nothing has changed. -/
theorem cancelEnd_total {length : Int} {place : Int → Int}
    (injective : ∀ j k, place j = place k → j = k) (size : 0 ≤ length)
    (inside : ∀ j, 0 ≤ j → j < length → i ≤ place j ∧ discards.Inside (place j)) :
    ∃ discards', cancelEnd place length discards = some discards' ∧
      Weakened i discards discards' ∧ ∃ reached, 0 ≤ reached ∧ reached ≤ length ∧
        (∀ j, 0 ≤ j → j < reached → discards'.value (place j) ≠ .provisional) ∧
        (∀ j, reached ≤ j → discards'.value (place j) = discards.value (place j)) ∧
        (reached < length → discards'.value (place reached) = .discard) := by
  refine Loop.run_total
    (fun state => Weakened i discards state.1 ∧ 0 ≤ state.2.1 ∧ state.2.1 ≤ length ∧
      (∀ j, 0 ≤ j → j < state.2.1 → state.1.value (place j) ≠ .provisional) ∧
      (∀ j, state.2.1 ≤ j → state.1.value (place j) = discards.value (place j)))
    (fun state => (length - state.2.1).toNat) _ ?_ _ (discards, 0, 0)
    ⟨.refl, le_rfl, size, fun j above below => absurd below (by dsimp only; omega), fun _ _ => rfl⟩
    (by dsimp only; omega)
  rintro ⟨current, j, consec⟩ ⟨weakened, nonneg, le, cleared, ahead⟩
  dsimp only at weakened nonneg le cleared ahead
  by_cases more : j < length
  · obtain ⟨from', within⟩ := inside j nonneg more
    have within := weakened.inside within
    have reads := Cells.get_inside within
    unfold Loop.Advances cancelEndStep
    simp only [if_pos more, reads, Option.bind_eq_bind, Option.bind_some]
    cases isMark : current.value (place j) with
    | discard =>
      -- Either the scan stops here, or it goes on past a real discard.
      have stops : Weakened i discards current ∧ ∃ reached, 0 ≤ reached ∧ reached ≤ length ∧
          (∀ j, 0 ≤ j → j < reached → current.value (place j) ≠ .provisional) ∧
          (∀ j, reached ≤ j → current.value (place j) = discards.value (place j)) ∧
          (reached < length → current.value (place reached) = .discard) :=
        ⟨weakened, j, nonneg, le, cleared, ahead, fun _ => isMark⟩
      by_cases far : 8 ≤ j
      · exact Or.inr ⟨current, by simp [far], stops⟩
      · by_cases three : consec + 1 = 3
        · exact Or.inr ⟨current, by simp [far, three], stops⟩
        · refine Or.inl ⟨(current, j + 1, consec + 1), by simp [far, three], ⟨weakened,
            by dsimp only; omega, by dsimp only; omega, fun k above below => ?_, fun k above => ?_⟩,
            by dsimp only; omega⟩
          · dsimp only at below
            rcases Int.lt_or_eq_of_le (Int.lt_add_one_iff.mp below) with before | rfl
            · exact cleared k above before
            · simp [isMark]
          · dsimp only at above
            exact ahead k (by omega)
    | keep =>
      refine Or.inl ⟨(current, j + 1, 0), by simp, ⟨weakened, by dsimp only; omega,
        by dsimp only; omega, fun k above below => ?_, fun k above => ?_⟩, by dsimp only; omega⟩
      · dsimp only at below
        rcases Int.lt_or_eq_of_le (Int.lt_add_one_iff.mp below) with before | rfl
        · exact cleared k above before
        · simp [isMark]
      · dsimp only at above
        exact ahead k (by omega)
    | provisional =>
      refine Or.inl ⟨(current.put (place j) .keep, j + 1, 0), by simp [Cells.set_inside within],
        ⟨weakened.trans (.put isMark from'), by dsimp only; omega, by dsimp only; omega,
          fun k above below => ?_, fun k above => ?_⟩, by dsimp only; omega⟩
      · dsimp only at below
        rw [Cells.value_put]
        by_cases same : k = j
        · subst same
          rw [Function.update_self]
          simp
        · rw [Function.update_of_ne fun places => same (injective k j places)]
          exact cleared k above (by omega)
      · dsimp only at above
        rw [Cells.value_put, Function.update_of_ne fun places => by
          have := injective k j places
          omega]
        exact ahead k (by omega)
  · exact Or.inr ⟨current, by simp [cancelEndStep, more], weakened, j, nonneg, le, cleared, ahead,
      fun below => absurd below more⟩

/-- From a place in a smooth run that starts with a real discard, one finds a real discard to
the left without leaving the marked places. -/
theorem Smooth.discard_left (smooth : Smooth discards first last)
    (starts : discards.value first = .discard) :
    ∀ (distance : Nat) (place : Int), place = first + distance → place < last →
      discards.value place ≠ .keep →
      ∃ left, first ≤ left ∧ left ≤ place ∧ discards.value left = .discard ∧
        ∀ between, left ≤ between → between ≤ place → discards.value between ≠ .keep
  | 0, place, isPlace, _, marked => by
    obtain rfl : place = first := by omega
    exact ⟨place, le_rfl, le_rfl, starts, fun between above below => by
      rwa [show between = place by omega]⟩
  | distance + 1, place, isPlace, below, marked => by
    cases isMark : discards.value place with
    | keep => exact absurd isMark marked
    | discard =>
      exact ⟨place, by omega, le_rfl, isMark, fun between above below => by
        rwa [show between = place by omega]⟩
    | provisional =>
      have joined := (smooth (place - 1) (by omega) (by omega)).2
      rw [sub_add_cancel, isMark] at joined
      obtain ⟨left, above, below', isLeft, all⟩ := smooth.discard_left starts distance (place - 1)
        (by omega) (by omega) fun kept => joined ⟨kept, rfl⟩
      refine ⟨left, above, by omega, isLeft, fun between from' to' => ?_⟩
      rcases Int.lt_or_eq_of_le to' with before | rfl
      · exact all between from' (by omega)
      · exact marked

theorem Smooth.discard_right (smooth : Smooth discards first last)
    (ends : discards.value (last - 1) = .discard) :
    ∀ (distance : Nat) (place : Int), place = last - 1 - distance → first ≤ place →
      discards.value place ≠ .keep →
      ∃ right, place ≤ right ∧ right < last ∧ discards.value right = .discard ∧
        ∀ between, place ≤ between → between ≤ right → discards.value between ≠ .keep
  | 0, place, isPlace, _, marked => by
    obtain rfl : place = last - 1 := by omega
    exact ⟨last - 1, le_rfl, by omega, ends, fun between above below => by
      rwa [show between = last - 1 by omega]⟩
  | distance + 1, place, isPlace, above, marked => by
    cases isMark : discards.value place with
    | keep => exact absurd isMark marked
    | discard =>
      exact ⟨place, le_rfl, by omega, isMark, fun between above below => by
        rwa [show between = place by omega]⟩
    | provisional =>
      have joined := (smooth place above (by omega)).1
      rw [isMark] at joined
      obtain ⟨right, above', below, isRight, all⟩ := smooth.discard_right ends distance (place + 1)
        (by omega) (by omega) fun kept => joined ⟨rfl, kept⟩
      refine ⟨right, by omega, below, isRight, fun between from' to' => ?_⟩
      rcases Int.lt_or_eq_of_le from' with after | rfl
      · exact all between (by omega) to'
      · exact marked

/-- Every marked place lies in a stretch of marked places that starts and ends with a real
discard. -/
def Enclosed (discards : Cells Mark) (first last : Int) : Prop :=
  ∀ place, first ≤ place → place < last → discards.value place ≠ .keep →
    ∃ left right, first ≤ left ∧ left ≤ place ∧ place ≤ right ∧ right < last ∧
      discards.value left = .discard ∧ discards.value right = .discard ∧
      ∀ between, left ≤ between → between ≤ right → discards.value between ≠ .keep

theorem Smooth.enclosed (smooth : Smooth discards first last)
    (starts : discards.value first = .discard) (ends : discards.value (last - 1) = .discard) :
    Enclosed discards first last := by
  intro place above below marked
  obtain ⟨left, leftGe, leftLe, isLeft, allLeft⟩ := smooth.discard_left starts
    (place - first).toNat place (by omega) below marked
  obtain ⟨right, rightGe, rightLt, isRight, allRight⟩ := smooth.discard_right ends
    (last - 1 - place).toNat place (by omega) above marked
  refine ⟨left, right, leftGe, leftLe, rightGe, rightLt, isLeft, isRight,
    fun between from' to' => ?_⟩
  rcases le_total between place with before | after
  · exact allLeft between from' before
  · exact allRight between after to'

/-- The scan from the start of a run leaves it smooth. -/
theorem smooth_cancelStart {reached : Int} (smooth : Smooth discards i (i + length))
    (cleared : ∀ j, 0 ≤ j → j < reached → after.value (i + j) ≠ .provisional)
    (ahead : ∀ j, reached ≤ j → after.value (i + j) = discards.value (i + j))
    (stops : reached < length → after.value (i + reached) = .discard) :
    Smooth after i (i + length) := by
  intro place above below
  rcases lt_trichotomy (place - i + 1) reached with before | at' | beyond
  · have one := cleared (place - i) (by omega) (by omega)
    have two := cleared (place - i + 1) (by omega) before
    rw [add_sub_cancel] at one
    rw [← add_assoc, add_sub_cancel] at two
    exact ⟨fun both => one both.1, fun both => two both.2⟩
  · have stop := stops (by omega)
    rw [show i + reached = place + 1 by omega] at stop
    simp [stop]
  · have one := ahead (place - i) (by omega)
    have two := ahead (place - i + 1) (by omega)
    rw [add_sub_cancel] at one
    rw [← add_assoc, add_sub_cancel] at two
    rw [one, two]
    exact smooth place above below

/-- The scan from the end of a run leaves it smooth. -/
theorem smooth_cancelFinish {reached : Int} (isLast : last = i + length - 1)
    (smooth : Smooth discards i (i + length))
    (cleared : ∀ j, 0 ≤ j → j < reached → after.value (last - j) ≠ .provisional)
    (ahead : ∀ j, reached ≤ j → after.value (last - j) = discards.value (last - j))
    (stops : reached < length → after.value (last - reached) = .discard) :
    Smooth after i (i + length) := by
  intro place above below
  rcases lt_trichotomy (last - place) reached with before | at' | beyond
  · have one := cleared (last - place) (by omega) before
    have two := cleared (last - place - 1) (by omega) (by omega)
    rw [sub_sub_cancel] at one
    rw [show last - (last - place - 1) = place + 1 by ring] at two
    exact ⟨fun both => one both.1, fun both => two both.2⟩
  · have stop := stops (by omega)
    rw [show last - reached = place by omega] at stop
    simp [stop]
  · have one := ahead (last - place) (by omega)
    have two := ahead (last - place - 1) (by omega)
    rw [sub_sub_cancel] at one
    rw [show last - (last - place - 1) = place + 1 by ring] at two
    rw [one, two]
    exact smooth place above below

theorem minimumRun_pos (length : Int) : 0 < minimumRun length := by
  unfold minimumRun
  omega

/-- A run that keeps its provisional discards, after the three scans. -/
theorem cancelScans_total (positive : 0 < length)
    (inside : ∀ place, i ≤ place → place < i + length → discards.Inside place)
    (marked : ∀ place, i ≤ place → place < i + length → discards.value place ≠ .keep)
    (starts : discards.value i = .discard) (ends : discards.value (i + length - 1) = .discard) :
    ∃ one two three, cancelSubruns i length (minimumRun length) discards = some one ∧
      cancelEnd (fun j => i + j) length one = some two ∧
      cancelEnd (fun j => i + length - 1 - j) length two = some three ∧
      Weakened i discards three ∧ Enclosed three i (i + length) := by
  obtain ⟨one, answer, weakened, smooth⟩ :=
    cancelSubruns_total (minimumRun_pos length) positive.le inside marked
  obtain ⟨two, answer', weakened', reached, -, -, cleared, ahead, stops⟩ :=
    @cancelEnd_total one i length (fun j => i + j) (fun j k same => by omega) positive.le
      fun j above below => ⟨by omega, weakened.inside (inside (i + j) (by omega) (by omega))⟩
  obtain ⟨three, answer'', weakened'', reached', -, -, cleared', ahead', stops'⟩ :=
    @cancelEnd_total two i length (fun j => i + length - 1 - j) (fun j k same => by omega)
      positive.le fun j above below => ⟨by omega, weakened'.inside (weakened.inside
        (inside (i + length - 1 - j) (by omega) (by omega)))⟩
  have weakens := (weakened.trans weakened').trans weakened''
  refine ⟨one, two, three, answer, answer', answer'', weakens, ?_⟩
  refine (smooth_cancelFinish rfl (smooth_cancelStart smooth cleared ahead stops) cleared' ahead'
    stops').enclosed ?_ ?_
  · exact (weakens.discard_iff i).mpr starts
  · exact (weakens.discard_iff (i + length - 1)).mpr ends

/-- One run of discardables. -/
theorem handleRun_total (start : i < stop)
    (inside : ∀ place, i ≤ place → place < stop → discards.Inside place)
    (mark : discards.value i = .discard) :
    ∃ result, handleRun stop i discards = some result ∧ Weakened i discards result.1 ∧
      i ≤ result.2 ∧ result.2 < stop ∧ Enclosed result.1 i (result.2 + 1) := by
  obtain ⟨⟨j, provisional⟩, ran, above, below, marked⟩ := runEnd_total start inside mark
  dsimp only at above below marked
  obtain ⟨⟨trimmed, k, provisional'⟩, trims, weakened, aboveK, belowK, ends, same⟩ :=
    trimRun_total provisional above (fun place from' to' => inside place from' (by omega)) mark
      marked
  dsimp only at weakened aboveK belowK ends same
  unfold handleRun
  simp only [ran, trims, Option.bind_eq_bind, Option.bind_some]
  split
  · obtain ⟨cancelled, answer, weakened'⟩ := cancelAll_total aboveK.le
      fun place from' to' => weakened.inside (inside place from' (by omega))
    have weakens := weakened.trans weakened'
    rw [answer]
    refine ⟨_, rfl, weakens, le_rfl, start, fun place from' to' _ => ?_⟩
    -- Only the real discard at the start of the run has been dealt with.
    dsimp only at to'
    obtain rfl : place = i := by omega
    have stays := (weakens.discard_iff place).mpr mark
    exact ⟨place, place, le_rfl, le_rfl, le_rfl, by dsimp only; omega, stays, stays,
      fun between above below => by
        rw [show between = place by omega, stays]
        simp⟩
  · have length : i + (k - i) = k := by ring
    obtain ⟨one, two, three, answer, answer', answer'', weakens, enclosed⟩ :=
      cancelScans_total (by omega : 0 < k - i)
        (fun place from' to' => weakened.inside (inside place from' (by omega)))
        (fun place from' to' => by rw [same place (by omega)]; exact marked place from' (by omega))
        ((weakened.discard_iff i).mpr mark) (by rwa [length])
    simp only [answer, answer', answer'', Option.bind_some]
    refine ⟨_, rfl, weakened.trans weakens, by dsimp only; omega, by dsimp only; omega, ?_⟩
    rwa [show i + (k - i) - 1 + 1 = i + (k - i) by ring]

theorem Enclosed.append {middle : Int} (enclosed : Enclosed discards first middle)
    (weakened : Weakened middle discards after) (rest : Enclosed after middle last)
    (low : first ≤ middle) (high : middle ≤ last) : Enclosed after first last := by
  intro place above below marked
  rcases lt_or_ge place middle with before | beyond
  · rw [weakened.before_eq before] at marked
    obtain ⟨left, right, leftGe, leftLe, rightGe, rightLt, isLeft, isRight, all⟩ :=
      enclosed place above before marked
    refine ⟨left, right, leftGe, leftLe, rightGe, by omega, ?_, ?_, fun between from' to' => ?_⟩
    · rwa [weakened.before_eq (by omega)]
    · rwa [weakened.before_eq rightLt]
    · rw [weakened.before_eq (by omega)]
      exact all between from' to'
  · obtain ⟨left, right, leftGe, found⟩ := rest place beyond below marked
    exact ⟨left, right, by omega, found⟩

end Run

/-- After the whole table has been gone through, every marked element is enclosed. -/
theorem cancelProvisional_total {stop : Nat} {discards : Cells Mark}
    (inside : ∀ place, 0 ≤ place → place < (stop : Int) → discards.Inside place) :
    ∃ discards', cancelProvisional stop discards = some discards' ∧
      Weakened 0 discards discards' ∧ Enclosed discards' 0 stop := by
  refine Loop.run_total
    (fun state => Weakened 0 discards state.1 ∧ 0 ≤ state.2 ∧ state.2 ≤ (stop : Int) ∧
      Enclosed state.1 0 state.2)
    (fun state => ((stop : Int) - state.2).toNat) _ ?_ _ (discards, 0)
    ⟨.refl, le_rfl, by dsimp only; omega,
      fun place above below => absurd below (by dsimp only; omega)⟩
    (by dsimp only; omega)
  rintro ⟨current, i⟩ ⟨weakened, nonneg, le, enclosed⟩
  dsimp only at weakened nonneg le enclosed
  by_cases more : i < stop
  · have within := weakened.inside (inside i nonneg more)
    have reads := Cells.get_inside within
    cases isMark : current.value i with
    | keep =>
      refine Or.inl ⟨(current, i + 1), by simp [more, reads, isMark],
        ⟨weakened, by dsimp only; omega, by dsimp only; omega,
          enclosed.append .refl (fun place above below marked => ?_) nonneg
            (by dsimp only; omega)⟩, by dsimp only; omega⟩
      obtain rfl : place = i := by dsimp only at below; omega
      exact absurd isMark marked
    | provisional =>
      have weakens : Weakened i current (current.put i .keep) := .put isMark le_rfl
      refine Or.inl ⟨(current.put i .keep, i + 1),
        by simp [more, reads, isMark, Cells.set_inside within],
        ⟨weakened.trans (.put isMark nonneg), by dsimp only; omega, by dsimp only; omega,
          enclosed.append weakens (fun place above below marked => ?_) nonneg
          (by dsimp only; omega)⟩, by dsimp only; omega⟩
      obtain rfl : place = i := by dsimp only at below; omega
      rw [Cells.value_put, Function.update_self] at marked
      exact absurd rfl marked
    | discard =>
      obtain ⟨⟨after, last⟩, answer, weakens, lastGe, lastLt, rest⟩ := handleRun_total more
        (fun place from' to' => weakened.inside (inside place (by omega) to')) isMark
      dsimp only at weakens lastGe lastLt rest
      refine Or.inl ⟨(after, last + 1), by simp [more, reads, isMark, answer],
        ⟨weakened.trans ⟨weakens.lower, weakens.upper, fun place => ?_⟩, by dsimp only; omega,
          by dsimp only; omega, enclosed.append weakens rest nonneg (by dsimp only; omega)⟩,
        by dsimp only; omega⟩
      rcases weakens.value place with same | ⟨from', was, is⟩
      · exact Or.inl same
      · exact Or.inr ⟨by omega, was, is⟩
  · refine Or.inr ⟨current, by simp [more], weakened, ?_⟩
    rwa [show i = stop by omega] at enclosed

/-! ### The table of one file -/

/-- The code at a place of a file. -/
def codeAt (equivs : List Nat) (place : Int) : Nat := equivs.getD place.toNat 0

/-- The discard table of a file: real discards have no match in the other file, and every
mark is enclosed by real discards. -/
structure Discards (equivs other : List Nat) (discards : Cells Mark) : Prop where
  lower : discards.lower = 0
  upper : discards.upper = equivs.length - 1
  unmatched : ∀ place, 0 ≤ place → place < (equivs.length : Int) →
    discards.value place = .discard → codeAt equivs place ∉ other
  enclosed : Enclosed discards 0 equivs.length

theorem markOf_total {code : Nat} (many : Nat) (lower : counts.lower = 0)
    (upper : counts.upper = equivMax - 1) (small : code < equivMax)
    (counted : ∀ code : Nat, counts.value code = other.count code) :
    ∃ mark, markOf counts many code = some mark ∧ (mark = .discard → code ∉ other) := by
  unfold markOf
  split
  · exact ⟨.keep, rfl, fun absurd' => by contradiction⟩
  · rw [Cells.get_inside ⟨by omega, by omega⟩, Option.map_some, counted]
    refine ⟨_, rfl, fun isDiscard => ?_⟩
    split at isDiscard
    · rename_i none'
      exact List.count_eq_zero.mp none'
    · split at isDiscard <;> contradiction

theorem marks_total (many : Nat) (lower : counts.lower = 0) (upper : counts.upper = equivMax - 1)
    (counted : ∀ code : Nat, counts.value code = other.count code) :
    ∀ equivs : List Nat, (∀ code ∈ equivs, code < equivMax) →
      ∃ marks, equivs.mapM (markOf counts many) = some marks ∧ marks.length = equivs.length ∧
        ∀ index, index < equivs.length → marks.getD index .keep = .discard →
          equivs.getD index 0 ∉ other
  | [], _ => ⟨[], rfl, rfl, fun index below => absurd below (Nat.not_lt_zero _)⟩
  | code :: rest, small => by
    obtain ⟨mark, isMark, unmatched⟩ := markOf_total many lower upper
      (small code List.mem_cons_self) counted
    obtain ⟨marks, answer, length, unmatched'⟩ := marks_total many lower upper counted rest
      fun code member => small code (List.mem_cons_of_mem _ member)
    refine ⟨mark :: marks, ?_, by simp [length], fun index below => ?_⟩
    · rw [List.mapM_cons, isMark, answer]
      rfl
    · cases index with
      | zero => simpa using unmatched
      | succ index => simpa using unmatched' index (by simpa using below)

theorem discardTable_total (lower : counts.lower = 0) (upper : counts.upper = equivMax - 1)
    (counted : ∀ code : Nat, counts.value code = other.count code)
    (small : ∀ code ∈ equivs, code < equivMax) :
    ∃ discards, discardTable counts equivs = some discards ∧ Discards equivs other discards := by
  obtain ⟨marks, answer, length, unmatched⟩ :=
    marks_total (manyMatches equivs.length) lower upper counted equivs small
  obtain ⟨discards, cancelled, weakened, enclosed⟩ := @cancelProvisional_total equivs.length
    (Cells.ofList marks .keep) fun place above below =>
      ⟨above, by show place ≤ (marks.length : Int) - 1; omega⟩
  refine ⟨discards, ?_, weakened.lower, ?_, fun place above below isDiscard => ?_, enclosed⟩
  · unfold discardTable
    rw [answer]
    exact cancelled
  · rw [weakened.upper]
    show (marks.length : Int) - 1 = _
    omega
  · exact unmatched place.toNat (by omega) ((weakened.discard_iff place).mp isDiscard)

/-! ### Squeezing out the discarded elements -/

/-- The places that stay in the comparison. -/
def stays (minimal : Bool) (discards : Cells Mark) (place : Int) : Bool :=
  minimal || decide (discards.value place = .keep)

/-- What is left of a file, and what is flagged. -/
structure Squeezed (minimal : Bool) (discards : Cells Mark) (equivs : List Nat) (stop : Int)
    (file : Compacted) : Prop where
  realindexes : file.realindexes = (Int.range 0 stop).filter (stays minimal discards)
  undiscarded : file.undiscarded = file.realindexes.map (codeAt equivs)
  lower : file.changed.lower = -1
  upper : file.changed.upper = equivs.length
  changed : ∀ place, file.changed.value place =
    (decide (0 ≤ place ∧ place < stop) && !stays minimal discards place)

theorem squeezeStep_squeezed {minimal : Bool} {discards : Cells Mark} (lower : discards.lower = 0)
    (upper : discards.upper = equivs.length - 1) {i : Nat} {file : Compacted}
    (below : i < equivs.length) (squeezed : Squeezed minimal discards equivs i file) :
    ∃ file', squeezeStep minimal discards equivs i file = some file' ∧
      Squeezed minimal discards equivs (i + 1 : Nat) file' := by
  have reads : discards.get i = some (discards.value i) :=
    Cells.get_inside ⟨by omega, by omega⟩
  have code : equivs[i]? = some (codeAt equivs i) := by
    rw [codeAt, Int.toNat_natCast, List.getD_eq_getElem?_getD, List.getElem?_eq_getElem below]
    rfl
  have ranges : Int.range 0 (i + 1 : Nat) = Int.range 0 i ++ [(i : Int)] := by
    rw [Nat.cast_succ, range_append (by omega : (0 : Int) ≤ i) (by omega), range_single]
  unfold squeezeStep
  simp only [code, reads, Option.bind_eq_bind, Option.bind_some]
  by_cases kept : minimal = true ∨ discards.value i = .keep
  · have isKept : stays minimal discards i = true := by simpa [stays] using kept
    rw [if_pos kept]
    refine ⟨_, rfl, ?_, ?_, squeezed.lower, squeezed.upper, fun place => ?_⟩
    · dsimp only
      rw [squeezed.realindexes, ranges, List.filter_append]
      simp [isKept]
    · dsimp only
      rw [squeezed.undiscarded, List.map_append]
      rfl
    · dsimp only
      rw [squeezed.changed]
      by_cases same : place = i
      · subst same
        simp [isKept]
      · congr 2
        exact propext ⟨fun bounds => by omega, fun bounds => by omega⟩
  · have notKept : stays minimal discards i = false := by
      simpa [stays] using kept
    have inside : file.changed.Inside i :=
      ⟨by rw [squeezed.lower]; omega, by rw [squeezed.upper]; omega⟩
    rw [if_neg kept, Cells.set_inside inside]
    refine ⟨_, rfl, ?_, squeezed.undiscarded, squeezed.lower, squeezed.upper, fun place => ?_⟩
    · dsimp only
      rw [squeezed.realindexes, ranges, List.filter_append]
      simp [notKept]
    · dsimp only
      rw [Cells.value_put]
      by_cases same : place = i
      · subst same
        rw [Function.update_self]
        simp [notKept]
      · rw [Function.update_of_ne same, squeezed.changed]
        congr 2
        exact propext ⟨fun bounds => by omega, fun bounds => by omega⟩

theorem squeeze_total (minimal : Bool) {discards : Cells Mark} (lower : discards.lower = 0)
    (upper : discards.upper = equivs.length - 1) :
    ∃ file, squeeze minimal discards equivs (clearFlags equivs.length) = some file ∧
      Squeezed minimal discards equivs equivs.length file := by
  obtain ⟨file, answer, squeezed⟩ := Loop.upTo_total
    (fun (i : Nat) file => Squeezed minimal discards equivs i file) equivs.length 0
    ⟨[], [], clearFlags equivs.length⟩
    (fun i file _ below squeezed => squeezeStep_squeezed lower upper (by omega) squeezed)
    ⟨rfl, rfl, rfl, rfl, fun place => by
      rw [show ((0 : Nat) : Int) = 0 from rfl]
      simp [clearFlags, Cells.filled]⟩
  rw [Nat.zero_add] at squeezed
  exact ⟨file, answer, squeezed⟩

/-- discard_confusing_lines, for both files. -/
theorem discardConfusingLines_total (minimal : Bool) {equivMax : Nat} {equivs0 equivs1 : List Nat}
    (small0 : ∀ code ∈ equivs0, code < equivMax) (small1 : ∀ code ∈ equivs1, code < equivMax) :
    ∃ discards0 discards1 file0 file1,
      discardConfusingLines minimal equivMax equivs0 equivs1 = some (file0, file1) ∧
      Discards equivs0 equivs1 discards0 ∧ Discards equivs1 equivs0 discards1 ∧
      Squeezed minimal discards0 equivs0 equivs0.length file0 ∧
      Squeezed minimal discards1 equivs1 equivs1.length file1 := by
  obtain ⟨counts0, counts, lower0, upper0, counted0⟩ := countEquivs_total small0
  obtain ⟨counts1, counts', lower1, upper1, counted1⟩ := countEquivs_total small1
  obtain ⟨discards0, table, isDiscards⟩ := discardTable_total lower1 upper1 counted1 small0
  obtain ⟨discards1, table', isDiscards'⟩ := discardTable_total lower0 upper0 counted0 small1
  obtain ⟨file0, answer, squeezed⟩ := squeeze_total minimal isDiscards.lower isDiscards.upper
  obtain ⟨file1, answer', squeezed'⟩ := squeeze_total minimal isDiscards'.lower isDiscards'.upper
  refine ⟨discards0, discards1, file0, file1, ?_, isDiscards, isDiscards', squeezed, squeezed'⟩
  unfold discardConfusingLines
  simp only [counts, counts', table, table', answer, answer', Option.bind_eq_bind,
    Option.bind_some]
  rfl

end Dwdiff.Diff
