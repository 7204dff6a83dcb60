/-
This file says what an edit script is, and proves that build_script reads one
off the flags of two files whose elements without a flag are the same.
-/

import Dwdiff.Diff.Shift

namespace Dwdiff.Diff

open Selection

/-! ### Edit scripts -/

/-- Stretches of two sequences hold the same elements. -/
def SameOn {Value : Type} (x y : Int → Value) (i j length : Int) : Prop :=
  ∀ k, 0 ≤ k → k < length → x (i + k) = y (j + k)

/-- From the places `i` and `j` on, the changes are in order and in bounds, and the elements
outside them are pairwise the same. -/
def Matches {Value : Type} (x y : Int → Value) (length0 length1 : Int) :
    (i j : Int) → List Change → Prop
  | i, j, [] => 0 ≤ length0 - i ∧ length0 - i = length1 - j ∧ SameOn x y i j (length0 - i)
  | i, j, change :: rest =>
    i ≤ change.line0 ∧ change.line0 - i = change.line1 - j ∧
    SameOn x y i j (change.line0 - i) ∧ 0 ≤ change.deleted ∧ 0 ≤ change.inserted ∧
    Matches x y length0 length1 (change.line0 + change.deleted)
      (change.line1 + change.inserted) rest

/-- No change is empty, and at least `least` elements stand before the first one and at least
one between any two. -/
def Separated : (least i : Int) → List Change → Prop
  | _, _, [] => True
  | least, i, change :: rest => i + least ≤ change.line0 ∧
    0 < change.deleted + change.inserted ∧
    Separated 1 (change.line0 + change.deleted) rest

instance {Value : Type} [DecidableEq Value] (x y : Int → Value) (i j length : Int) :
    Decidable (SameOn x y i j length) := Int.decidableLELT _ _ _

instance Matches.decidable {Value : Type} [DecidableEq Value] (x y : Int → Value)
    (length0 length1 : Int) :
    ∀ (i j : Int) (script : List Change), Decidable (Matches x y length0 length1 i j script)
  | _, _, [] => inferInstanceAs (Decidable (_ ∧ _ ∧ _))
  | _, _, change :: rest =>
    have := Matches.decidable x y length0 length1 (change.line0 + change.deleted)
      (change.line1 + change.inserted) rest
    inferInstanceAs (Decidable (_ ∧ _ ∧ _ ∧ _ ∧ _ ∧ _))

instance Separated.decidable : ∀ (least i : Int) (script : List Change),
    Decidable (Separated least i script)
  | _, _, [] => isTrue trivial
  | _, _, change :: rest =>
    have := Separated.decidable 1 (change.line0 + change.deleted) rest
    inferInstanceAs (Decidable (_ ∧ _ ∧ _))

section Scripts

variable {Value : Type} {x y : Int → Value} {length0 length1 i j : Int} {script : List Change}

/-- Every change lies inside both sequences. -/
theorem Matches.bounds (isMatch : Matches x y length0 length1 i j script) :
    i ≤ length0 ∧ j ≤ length1 := by
  induction script generalizing i j with
  | nil =>
    obtain ⟨le, same, -⟩ := isMatch
    omega
  | cons change rest inductionHypothesis =>
    obtain ⟨le, same, -, deleted, inserted, tail⟩ := isMatch
    have := inductionHypothesis tail
    omega

theorem Matches.inside (isMatch : Matches x y length0 length1 i j script) : ∀ change ∈ script,
    i ≤ change.line0 ∧ j ≤ change.line1 ∧ 0 ≤ change.deleted ∧ 0 ≤ change.inserted ∧
      change.line0 + change.deleted ≤ length0 ∧ change.line1 + change.inserted ≤ length1 := by
  induction script generalizing i j with
  | nil => exact fun _ absent => absurd absent List.not_mem_nil
  | cons change rest inductionHypothesis =>
    obtain ⟨le, lengths, -, deleted, inserted, tail⟩ := isMatch
    have bounds := tail.bounds
    refine List.forall_mem_cons.mpr ⟨by omega, fun other isOne => ?_⟩
    have later := inductionHypothesis tail other isOne
    omega

theorem Matches.nonneg (isMatch : Matches x y length0 length1 i j script) :
    ∀ change ∈ script, 0 ≤ change.deleted ∧ 0 ≤ change.inserted := by
  intro change isOne
  obtain ⟨-, -, deleted, inserted, -⟩ := isMatch.inside change isOne
  exact ⟨deleted, inserted⟩

/-- A run of equal elements before a script. -/
theorem Matches.prepend {i' j' : Int} (isMatch : Matches x y length0 length1 i' j' script)
    (le : i ≤ i') (lengths : i' - i = j' - j) (same : SameOn x y i j (i' - i)) :
    Matches x y length0 length1 i j script := by
  have longer : ∀ last, SameOn x y i' j' (last - i') → SameOn x y i j (last - i) := by
    intro last equal k low high
    rcases lt_or_ge k (i' - i) with before | behind
    · exact same k low before
    · have later := equal (k - (i' - i)) (by omega) (by omega)
      rwa [show i' + (k - (i' - i)) = i + k by ring,
        show j' + (k - (i' - i)) = j + k by omega] at later
  cases script with
  | nil =>
    obtain ⟨le', lengths', equal⟩ := isMatch
    exact ⟨by omega, by omega, longer _ equal⟩
  | cons change rest =>
    obtain ⟨le', lengths', equal, deleted, inserted, tail⟩ := isMatch
    exact ⟨by omega, by omega, longer _ equal, deleted, inserted, tail⟩

/-- One more pair of equal elements before a script. -/
theorem Matches.extend (isMatch : Matches x y length0 length1 i j script)
    (same : x (i - 1) = y (j - 1)) : Matches x y length0 length1 (i - 1) (j - 1) script := by
  refine isMatch.prepend (by omega) (by omega) fun k low high => ?_
  obtain rfl : k = 0 := by omega
  simpa using same

/-- A script is cut behind any of its changes. -/
theorem Matches.front {before rest : List Change}
    (isMatch : Matches x y length0 length1 i j (before ++ rest)) :
    ∃ i' j', Matches x y i' j' i j before ∧ Matches x y length0 length1 i' j' rest := by
  induction before generalizing i j with
  | nil => exact ⟨i, j, ⟨by omega, by omega, fun k low high => by omega⟩, isMatch⟩
  | cons change before inductionHypothesis =>
    obtain ⟨le, lengths, same, deleted, inserted, tail⟩ := isMatch
    obtain ⟨i', j', first, second⟩ := inductionHypothesis tail
    exact ⟨i', j', ⟨le, lengths, same, deleted, inserted, first⟩, second⟩

theorem SameOn.map_range {length : Int} (same : SameOn x y i j length) :
    (Int.range i (i + length)).map x = (Int.range j (j + length)).map y := by
  simp only [Int.range, List.map_map, add_sub_cancel_left]
  refine List.map_congr_left fun k member => ?_
  exact same k (by omega) (by have := List.mem_range.mp member; omega)

/-- A script may start earlier, and may keep less distance. -/
theorem Separated.mono {least least' i' : Int} (separated : Separated least' i' script)
    (le : i + least ≤ i' + least') : Separated least i script := by
  cases script with
  | nil => trivial
  | cons change rest =>
    obtain ⟨apart, something, tail⟩ := separated
    exact ⟨by omega, something, tail⟩

theorem Separated.something {least : Int} (separated : Separated least i script) :
    ∀ change ∈ script, 0 < change.deleted + change.inserted := by
  induction script generalizing least i with
  | nil => exact fun _ absent => absurd absent List.not_mem_nil
  | cons change rest inductionHypothesis =>
    obtain ⟨-, something, tail⟩ := separated
    exact List.forall_mem_cons.mpr ⟨something, inductionHypothesis tail⟩

theorem Separated.append_left {least : Int} {before rest : List Change}
    (separated : Separated least i (before ++ rest)) : Separated least i before := by
  induction before generalizing least i with
  | nil => trivial
  | cons change before inductionHypothesis =>
    obtain ⟨apart, something, tail⟩ := separated
    exact ⟨apart, something, inductionHypothesis tail⟩

end Scripts

/-- The second sequence as the script describes it: what stands outside the changes is taken
from the first sequence, the rest from the ranges that are inserted. -/
def patch {Value : Type} (x y : Int → Value) (length0 : Int) : (i : Int) → List Change → List Value
  | i, [] => (Int.range i length0).map x
  | i, change :: rest =>
    (Int.range i change.line0).map x ++
    (Int.range change.line1 (change.line1 + change.inserted)).map y ++
    patch x y length0 (change.line0 + change.deleted) rest

/-- Replacing each deleted range by the inserted one gives the second sequence. -/
theorem Matches.patch_eq {Value : Type} {x y : Int → Value} {length0 length1 : Int} :
    ∀ {i j : Int} {script : List Change}, Matches x y length0 length1 i j script →
      patch x y length0 i script = (Int.range j length1).map y := by
  intro i j script isMatch
  induction script generalizing i j with
  | nil =>
    obtain ⟨le, lengths, same⟩ := isMatch
    have equal := same.map_range
    rw [add_sub_cancel, lengths, add_sub_cancel] at equal
    exact equal
  | cons change rest inductionHypothesis =>
    obtain ⟨le, lengths, same, deleted, inserted, tail⟩ := isMatch
    have bounds := tail.bounds
    have equal := same.map_range
    rw [add_sub_cancel, lengths, add_sub_cancel] at equal
    rw [patch, equal, inductionHypothesis tail, ← List.map_append, ← List.map_append,
      ← range_append (by omega) (by omega), ← range_append (by omega) (by omega)]

/-! ### Reading the script off the flags -/

section Build

variable {e0 e1 : Int → Nat} {length0 length1 : Nat} {changed0 changed1 : Cells Bool}

/-- The element of a kept place is found in the kept list at the number of kept places before
it. -/
theorem kept_rank {flagged : Int → Bool} {value : Int → Nat} {last place : Int}
    (nonneg : 0 ≤ place) (below : place < last) (present : flagged place = false) :
    (kept flagged value 0 last)[count flagged 0 place]? = some (value place) := by
  rw [kept_append flagged value nonneg below.le,
    kept_append flagged value (by omega : place ≤ place + 1) (by omega),
    kept_single flagged value present, ← kept_length flagged value]
  simp

/-- Elements without a flag that have equally many before them are the same. -/
theorem same_of_rank (aligned : kept changed0.value e0 0 length0 = kept changed1.value e1 0 length1)
    {i0 i1 : Int} (nonneg0 : 0 ≤ i0) (below0 : i0 < length0) (nonneg1 : 0 ≤ i1)
    (below1 : i1 < length1) (clear0 : changed0.value i0 = false)
    (clear1 : changed1.value i1 = false)
    (inStep : count changed0.value 0 i0 = count changed1.value 0 i1) : e0 i0 = e1 i1 := by
  have rank0 := @kept_rank _ e0 _ _ nonneg0 below0 clear0
  have rank1 := @kept_rank _ e1 _ _ nonneg1 below1 clear1
  rw [aligned, inStep, rank1] at rank0
  exact (Option.some.inj rank0).symm

/-- The elements that a change takes away, as a block of places, and those that it brings. -/
def Change.block0 (change : Change) : Int × Int := (change.line0, change.deleted)

def Change.block1 (change : Change) : Int × Int := (change.line1, change.inserted)

/-- The changes are the blocks of flagged elements. -/
structure Spells (length0 length1 : Nat) (changed0 changed1 : Cells Bool) (i0 i1 : Int)
    (script : List Change) : Prop where
  blocks0 : Blocks changed0.value length0 i0 (script.map Change.block0)
  blocks1 : Blocks changed1.value length1 i1 (script.map Change.block1)

/-- What the script says from a matched pair on, or from the very beginning. -/
def Built (e0 e1 : Int → Nat) (length0 length1 : Nat) (changed0 changed1 : Cells Bool)
    (i0 i1 : Int) (script : List Change) : Prop :=
  (i0 = -1 ∧ i1 = -1 ∧ Matches e0 e1 length0 length1 0 0 script ∧ Separated 0 0 script ∧
    Spells length0 length1 changed0 changed1 0 0 script) ∨
  (0 ≤ i0 ∧ 0 ≤ i1 ∧ Matches e0 e1 length0 length1 i0 i1 script ∧ Separated 1 i0 script ∧
    count changed0.value 0 i0 = count changed1.value 0 i1 ∧
    Spells length0 length1 changed0 changed1 i0 i1 script)

/-- Flagged elements in front of the blocks. -/
theorem Spells.cons {i0 i1 line0 line1 : Int} {script : List Change}
    (spells : Spells length0 length1 changed0 changed1 i0 i1 script) (low0 : line0 ≤ i0)
    (low1 : line1 ≤ i1)
    (present0 : ∀ place, line0 ≤ place → place < i0 → changed0.value place = true)
    (present1 : ∀ place, line1 ≤ place → place < i1 → changed1.value place = true) :
    Spells length0 length1 changed0 changed1 line0 line1
      (⟨line0, line1, i0 - line0, i1 - line1⟩ :: script) := by
  have block : ∀ {changed : Cells Bool} {length line i : Int} {rest : List (Int × Int)},
      line ≤ i → (∀ place, line ≤ place → place < i → changed.value place = true) →
      Blocks changed.value length i rest →
      Blocks changed.value length line ((line, i - line) :: rest) := by
    intro changed length line i rest low present tail
    refine ⟨⟨le_rfl, fun place above below => by omega⟩, ⟨by omega, fun place above below =>
      present place above (by omega)⟩, ?_⟩
    rwa [add_sub_cancel]
  exact ⟨block low0 present0 spells.blocks0, block low1 present1 spells.blocks1⟩

/-- Stepping over the pair in front of the script, whether it exists or both files end here. -/
theorem Built.step
    (aligned : kept changed0.value e0 0 length0 = kept changed1.value e1 0 length1)
    {line0 line1 : Int} {script : List Change} (nonneg0 : 0 ≤ line0) (nonneg1 : 0 ≤ line1)
    (isMatch : Matches e0 e1 length0 length1 line0 line1 script)
    (separated : Separated 0 line0 script) (clear0 : changed0.value (line0 - 1) = false)
    (clear1 : changed1.value (line1 - 1) = false)
    (inStep : count changed0.value 0 line0 = count changed1.value 0 line1)
    (spells : Spells length0 length1 changed0 changed1 line0 line1 script) :
    Built e0 e1 length0 length1 changed0 changed1 (line0 - 1) (line1 - 1) script := by
  have bounds := isMatch.bounds
  have before : ∀ (changed : Cells Bool) (line : Int), 0 < line → changed.value (line - 1) = false →
      count changed.value 0 line = count changed.value 0 (line - 1) + 1 := by
    intro changed line positive clear
    rw [count_at _ (by omega : (0 : Int) ≤ line - 1) (by omega) clear, sub_add_cancel,
      count_of_le _ le_rfl, add_zero]
  rcases Int.lt_or_eq_of_le nonneg0 with positive0 | rfl
  · have one := before changed0 line0 positive0 clear0
    have positive1 : 0 < line1 := by
      refine lt_of_le_of_ne nonneg1 fun isZero => ?_
      rw [← isZero, count_of_le changed1.value le_rfl] at inStep
      omega
    have one' := before changed1 line1 positive1 clear1
    have inStep' : count changed0.value 0 (line0 - 1) = count changed1.value 0 (line1 - 1) := by
      omega
    refine Or.inr ⟨by omega, by omega, isMatch.extend (same_of_rank aligned (by omega) (by omega)
      (by omega) (by omega) clear0 clear1 inStep'), ?_, inStep',
      ⟨spells.blocks0.extend clear0, spells.blocks1.extend clear1⟩⟩
    cases script with
    | nil => trivial
    | cons change rest => exact ⟨by have := separated.1; omega, separated.2⟩
  · have isZero : line1 = 0 := by
      by_contra positive
      have one' := before changed1 line1 (by omega) clear1
      rw [count_of_le changed0.value le_rfl] at inStep
      omega
    subst isZero
    exact Or.inl ⟨rfl, rfl, isMatch, separated, spells⟩

/-- build_script always answers with an edit script, whose changes are the flagged elements. -/
theorem buildScript_total (flags0 : Flags length0 changed0) (flags1 : Flags length1 changed1)
    (aligned : kept changed0.value e0 0 length0 = kept changed1.value e1 0 length1) :
    ∃ script, buildScript changed0 changed1 length0 length1 = some script ∧
      Matches e0 e1 length0 length1 0 0 script ∧ Separated 0 0 script ∧
      Spells length0 length1 changed0 changed1 0 0 script := by
  have starts : Built e0 e1 length0 length1 changed0 changed1 length0 length1 [] := by
    refine Or.inr ⟨Int.natCast_nonneg _, Int.natCast_nonneg _, ⟨by simp, by simp,
      fun k low high => by omega⟩, trivial, ?_, ⟨le_rfl, fun place low high => by omega⟩,
      ⟨le_rfl, fun place low high => by omega⟩⟩
    rw [← kept_length _ e0, ← kept_length _ e1, aligned]
  refine Loop.run_total
    (fun state => Built e0 e1 length0 length1 changed0 changed1 state.1 state.2.1 state.2.2)
    (fun state => (state.1 + 1).toNat) _ ?_ _ ((length0 : Int), (length1 : Int), []) starts
    (by dsimp only; omega)
  · rintro ⟨i0, i1, script⟩
      (⟨rfl, rfl, done⟩ | ⟨nonneg0, nonneg1, isMatch, separated, inStep, spells⟩)
    · exact Or.inr ⟨script, by simp, done⟩
    · dsimp only at nonneg0 nonneg1 isMatch separated inStep spells
      have bounds := isMatch.bounds
      have reads0 := Cells.get_inside (flags0.inside (by omega : -1 ≤ i0 - 1) (by omega))
      have reads1 := Cells.get_inside (flags1.inside (by omega : -1 ≤ i1 - 1) (by omega))
      by_cases flagged : changed0.value (i0 - 1) = true ∨ changed1.value (i1 - 1) = true
      · obtain ⟨clear0, found0, low0, high0, isClear0, between0⟩ := previousClear_total flags0
          (by omega : -1 ≤ i0 - 1) (by omega)
        obtain ⟨clear1, found1, low1, high1, isClear1, between1⟩ := previousClear_total flags1
          (by omega : -1 ≤ i1 - 1) (by omega)
        have skip0 : count changed0.value 0 i0 = count changed0.value 0 (clear0 + 1) := by
          have gap : count changed0.value (clear0 + 1) i0 = 0 :=
            count_flagged _ fun place above below => between0 place (by omega) (by omega)
          rw [count_append _ (by omega : (0 : Int) ≤ clear0 + 1) (by omega), gap, add_zero]
        have skip1 : count changed1.value 0 i1 = count changed1.value 0 (clear1 + 1) := by
          have gap : count changed1.value (clear1 + 1) i1 = 0 :=
            count_flagged _ fun place above below => between1 place (by omega) (by omega)
          rw [count_append _ (by omega : (0 : Int) ≤ clear1 + 1) (by omega), gap, add_zero]
        -- The change is not empty, since one of its last elements carries a flag.
        have nonempty : clear0 + 1 < i0 ∨ clear1 + 1 < i1 := by
          rcases flagged with flagged | flagged
          · refine Or.inl (lt_of_le_of_ne (by omega) fun same => ?_)
            rw [show i0 - 1 = clear0 by omega, isClear0] at flagged
            contradiction
          · refine Or.inr (lt_of_le_of_ne (by omega) fun same => ?_)
            rw [show i1 - 1 = clear1 by omega, isClear1] at flagged
            contradiction
        have built := @Built.step _ _ _ _ _ _ aligned _ _
          (⟨clear0 + 1, clear1 + 1, i0 - (clear0 + 1), i1 - (clear1 + 1)⟩ :: script)
          (by omega : 0 ≤ clear0 + 1) (by omega : 0 ≤ clear1 + 1)
          ⟨le_rfl, by ring, fun k low high => by dsimp only at high; omega, by dsimp only; omega,
            by dsimp only; omega, by
              dsimp only
              rw [add_sub_cancel, add_sub_cancel]
              exact isMatch⟩
          ⟨by dsimp only; omega, by dsimp only; omega, by
            dsimp only
            rw [add_sub_cancel]
            exact separated⟩
          (by rwa [add_sub_cancel_right]) (by rwa [add_sub_cancel_right]) (by omega)
          (spells.cons (by omega) (by omega) (fun place low high => between0 place (by omega)
            (by omega)) fun place low high => between1 place (by omega) (by omega))
        refine Or.inl ⟨(clear0 + 1 - 1, clear1 + 1 - 1, _), ?_, built, by dsimp only; omega⟩
        have either : (changed0.value (i0 - 1) || changed1.value (i1 - 1)) = true := by
          rwa [Bool.or_eq_true]
        dsimp only
        rw [if_pos (Or.inl nonneg0), reads0, reads1]
        simp only [Option.bind_eq_bind, Option.bind_some, if_pos either, found0, found1]
        rfl
      · have clear : changed0.value (i0 - 1) = false ∧ changed1.value (i1 - 1) = false := by
          simpa using flagged
        refine Or.inl ⟨(i0 - 1, i1 - 1, script), ?_, Built.step aligned nonneg0 nonneg1 isMatch ?_
          clear.1 clear.2 inStep spells, by dsimp only; omega⟩
        · simp [nonneg0, reads0, reads1, clear]
        · cases script with
          | nil => trivial
          | cons change rest => exact ⟨by have := separated.1; omega, separated.2⟩

end Build

end Dwdiff.Diff
