/-
This file puts the phases of diff_2_files together: discarding, comparing,
shifting and building. The script is always a valid edit script, and when no
heuristic was used the comparison has kept as many elements as possible.
-/

import Dwdiff.Diff.Compare
import Dwdiff.Diff.Discard
import Dwdiff.Diff.Script
import Dwdiff.Library.LongestCommon
import Mathlib.Data.List.Nodup

namespace Dwdiff.Diff

open EditGraph Selection

variable {minimal : Bool} {discards : Cells Mark} {equivs : List Nat}
  {discards0 discards1 : Cells Mark} {equivs0 equivs1 : List Nat}

/-- Arrays of eight-byte numbers that fit into the address space together. -/
def Addressable (equivs0 equivs1 : List Nat) : Prop :=
  equivs0.length + equivs1.length < 2 ^ 60

instance (equivs0 equivs1 : List Nat) : Decidable (Addressable equivs0 equivs1) :=
  inferInstanceAs (Decidable (_ < _))

/-! ### The comparison of what discarding has left -/

section Squeezed

variable {file : Compacted} (squeezed : Squeezed minimal discards equivs equivs.length file)

include squeezed

theorem Squeezed.length_eq : file.undiscarded.length = file.realindexes.length := by
  rw [squeezed.undiscarded, List.length_map]

theorem Squeezed.length_le : file.realindexes.length ≤ equivs.length := by
  rw [squeezed.realindexes]
  refine (List.length_filter_le _ _).trans (le_of_eq ?_)
  simp [Int.range]

/-- The real place of a compared element. -/
theorem Squeezed.real_mem {x : Int} (nonneg : 0 ≤ x) (below : x < file.realindexes.length) :
    0 ≤ (Cells.ofList file.realindexes 0).value x ∧
      (Cells.ofList file.realindexes 0).value x < equivs.length ∧
      stays minimal discards ((Cells.ofList file.realindexes 0).value x) = true := by
  have member := @Cells.ofList_mem _ file.realindexes 0 x nonneg below
  rw [squeezed.realindexes, List.mem_filter, Int.mem_range_iff] at member
  rw [← squeezed.realindexes] at member
  exact ⟨member.1.1, member.1.2, member.2⟩

theorem Squeezed.nodup : file.realindexes.Nodup := by
  rw [squeezed.realindexes]
  exact (range_nodup 0 equivs.length).filter _

/-- Looking at the compared elements only. -/
theorem Squeezed.kept_eq {flags : Int → Bool}
    (flagged : ∀ place, 0 ≤ place → place < (equivs.length : Int) →
      stays minimal discards place = false → flags place = true) :
    kept flags (codeAt equivs) 0 equivs.length =
      kept (fun x => flags ((Cells.ofList file.realindexes 0).value x))
        (Cells.ofList file.undiscarded 0).value 0 file.undiscarded.length := by
  rw [kept_numbered flags (codeAt equivs) (stays minimal discards) flagged,
    ← squeezed.realindexes, squeezed.length_eq]
  refine kept_congr (fun _ _ _ => rfl) fun x nonneg below _ => ?_
  show codeAt equivs (file.realindexes.getD x.toNat 0) = file.undiscarded.getD x.toNat 0
  rw [squeezed.undiscarded, List.getD_eq_getElem?_getD, List.getD_eq_getElem?_getD,
    List.getElem?_map, List.getElem?_eq_getElem (by omega : x.toNat < file.realindexes.length)]
  rfl

end Squeezed

/-- The vectors that compareFiles gives to compareseq. -/
def comparisonOf (speedLargeFiles : Bool) (file0 file1 : Compacted) : Comparison :=
  ⟨⟨Cells.ofList file0.undiscarded 0, Cells.ofList file1.undiscarded 0, speedLargeFiles,
      tooExpensiveFor (file0.undiscarded.length + file1.undiscarded.length + 3)⟩,
    Cells.ofList file0.realindexes 0, Cells.ofList file1.realindexes 0⟩

/-- The whole of the compared elements. -/
def wholeBox (file0 file1 : Compacted) : Box :=
  ⟨0, file0.undiscarded.length, 0, file1.undiscarded.length⟩

section CompareFiles

variable {file0 file1 : Compacted}

theorem comparisonOf_sized (speedLargeFiles : Bool) (addressable : Addressable equivs0 equivs1)
    (squeezed0 : Squeezed minimal discards0 equivs0 equivs0.length file0)
    (squeezed1 : Squeezed minimal discards1 equivs1 equivs1.length file1) :
    (comparisonOf speedLargeFiles file0 file1).Sized file0.undiscarded.length
      file1.undiscarded.length := by
  have length0 := squeezed0.length_eq
  have length1 := squeezed1.length_eq
  refine ⟨⟨fun _ => Cells.inside_ofList, fun _ => Cells.inside_ofList⟩,
    fun x nonneg below => Cells.inside_ofList nonneg (length0 ▸ below),
    fun y nonneg below => Cells.inside_ofList nonneg (length1 ▸ below),
    fun x x' nonneg below nonneg' below' => Cells.ofList_injective squeezed0.nodup nonneg
      (length0 ▸ below) nonneg' (length0 ▸ below'),
    fun y y' nonneg below nonneg' below' => Cells.ofList_injective squeezed1.nodup nonneg
      (length1 ▸ below) nonneg' (length1 ▸ below'), ?_⟩
  have le0 := squeezed0.length_le
  have le1 := squeezed1.length_le
  unfold Addressable at addressable
  unfold offsetMax
  omega

/-- After the comparison: the flags and what was kept. -/
structure Flagged (minimal : Bool) (discards : Cells Mark) (equivs : List Nat)
    (changed : Cells Bool) : Prop where
  flags : Flags equivs.length changed
  discarded : ∀ place, 0 ≤ place → place < (equivs.length : Int) →
    stays minimal discards place = false → changed.value place = true

/-- What stands outside the compared places has not been touched. -/
theorem flagged_of_framed {file : Compacted} {changed : Cells Bool}
    (squeezed : Squeezed minimal discards equivs equivs.length file)
    (framed : Framed (Cells.ofList file.realindexes 0) 0 file.undiscarded.length file.changed
      changed) : Flagged minimal discards equivs changed := by
  have length := squeezed.length_eq
  have outside : ∀ place, stays minimal discards place = false ∨ place < 0 ∨
      (equivs.length : Int) ≤ place → changed.value place = file.changed.value place :=
    fun place out => framed.value place fun x nonneg below same => by
      obtain ⟨low, high, isStay⟩ := squeezed.real_mem nonneg (by omega)
      rw [same] at low high isStay
      rcases out with notStay | out
      · rw [isStay] at notStay
        contradiction
      · omega
  refine ⟨⟨framed.lower.trans squeezed.lower, framed.upper.trans squeezed.upper, ?_, ?_⟩,
    fun place nonneg below notStay => ?_⟩
  · rw [outside _ (Or.inr (Or.inl (by decide))), squeezed.changed]
    simp
  · rw [outside _ (Or.inr (Or.inr le_rfl)), squeezed.changed]
    simp
  · rw [outside _ (Or.inl notStay), squeezed.changed]
    simp [nonneg, below, notStay]

theorem wholeBox_inRange (file0 file1 : Compacted) :
    (wholeBox file0 file1).InRange file0.undiscarded.length file1.undiscarded.length :=
  ⟨le_rfl, Int.natCast_nonneg _, le_rfl, le_rfl, Int.natCast_nonneg _, le_rfl⟩

/-- What compareFiles gives to compareseq to write on. -/
def progressOf (file0 file1 : Compacted) : Progress :=
  ⟨file0.changed, file1.changed, allocateDiagonals file0.undiscarded.length
    file1.undiscarded.length, []⟩

theorem progressOf_fits (speedLargeFiles : Bool)
    (squeezed0 : Squeezed minimal discards0 equivs0 equivs0.length file0)
    (squeezed1 : Squeezed minimal discards1 equivs1 equivs1.length file1) :
    (progressOf file0 file1).Fits (comparisonOf speedLargeFiles file0 file1)
      file0.undiscarded.length file1.undiscarded.length := by
  have length0 := squeezed0.length_eq
  have length1 := squeezed1.length_eq
  refine ⟨fun x nonneg below => ?_, fun y nonneg below => ?_, ?_⟩
  · obtain ⟨low, high, -⟩ := squeezed0.real_mem nonneg (by omega)
    show file0.changed.Inside ((Cells.ofList file0.realindexes 0).value x)
    exact ⟨by rw [squeezed0.lower]; omega, by rw [squeezed0.upper]; omega⟩
  · obtain ⟨low, high, -⟩ := squeezed1.real_mem nonneg (by omega)
    show file1.changed.Inside ((Cells.ofList file1.realindexes 0).value y)
    exact ⟨by rw [squeezed1.lower]; omega, by rw [squeezed1.upper]; omega⟩
  · unfold progressOf allocateDiagonals Diagonals.Roomy Roomy Box.dmin Box.dmax Cells.uninitialised
      Cells.filled
    dsimp only
    omega

theorem progressOf_fresh (speedLargeFiles : Bool)
    (squeezed0 : Squeezed minimal discards0 equivs0 equivs0.length file0)
    (squeezed1 : Squeezed minimal discards1 equivs1 equivs1.length file1) :
    (progressOf file0 file1).Fresh (comparisonOf speedLargeFiles file0 file1)
      (wholeBox file0 file1) := by
  have length0 := squeezed0.length_eq
  have length1 := squeezed1.length_eq
  refine ⟨fun x nonneg below => ?_, fun y nonneg below => ?_⟩
  · obtain ⟨-, -, isStay⟩ := squeezed0.real_mem nonneg (length0 ▸ below)
    show file0.changed.value ((Cells.ofList file0.realindexes 0).value x) = false
    rw [squeezed0.changed, isStay]
    simp
  · obtain ⟨-, -, isStay⟩ := squeezed1.real_mem nonneg (length1 ▸ below)
    show file1.changed.value ((Cells.ofList file1.realindexes 0).value y) = false
    rw [squeezed1.changed, isStay]
    simp

/-- The comparison of two squeezed files. -/
theorem compareFiles_total (speedLargeFiles : Bool) (addressable : Addressable equivs0 equivs1)
    (squeezed0 : Squeezed minimal discards0 equivs0 equivs0.length file0)
    (squeezed1 : Squeezed minimal discards1 equivs1 equivs1.length file1) :
    ∃ progress, compareFiles minimal speedLargeFiles file0 file1 = some progress ∧
      Flagged minimal discards0 equivs0 progress.changed0 ∧
      Flagged minimal discards1 equivs1 progress.changed1 ∧
      kept progress.changed0.value (codeAt equivs0) 0 equivs0.length =
        kept progress.changed1.value (codeAt equivs1) 0 equivs1.length ∧
      (minimal = true → ∀ part ∈ progress.splits, part.Minimal) ∧
      ((∀ part ∈ progress.splits, part.Minimal) → ∀ whole,
        (comparisonOf speedLargeFiles file0 file1).context.Across (wholeBox file0 file1) whole →
        (file0.undiscarded.length + file1.undiscarded.length : Int) ≤
          whole + 2 * ((kept progress.changed0.value (codeAt equivs0) 0
            equivs0.length).length : Int)) ∧
      ((comparisonOf speedLargeFiles file0 file1).context.Across (wholeBox file0 file1) 0 →
        progress.splits = []) := by
  have sized := comparisonOf_sized speedLargeFiles addressable squeezed0 squeezed1
  have inRange := wholeBox_inRange file0 file1
  obtain ⟨progress, answer, compared⟩ := compareseq_total sized
    (file0.undiscarded.length + file1.undiscarded.length + 1) (wholeBox file0 file1) minimal
    (progressOf file0 file1) inRange (progressOf_fits speedLargeFiles squeezed0 squeezed1)
    (progressOf_fresh speedLargeFiles squeezed0 squeezed1)
    (by unfold Box.size wholeBox; dsimp only; omega)
  have flagged0 : Flagged minimal discards0 equivs0 progress.changed0 :=
    flagged_of_framed squeezed0 compared.framed0
  have flagged1 : Flagged minimal discards1 equivs1 progress.changed1 :=
    flagged_of_framed squeezed1 compared.framed1
  obtain ⟨splits, isSplits, allMinimal, short⟩ := compared.history
  dsimp only [progressOf] at isSplits
  rw [List.append_nil] at isSplits
  subst isSplits
  refine ⟨progress, answer, flagged0, flagged1, ?_, allMinimal, fun minimal whole across => ?_,
    compareseq_free sized inRange answer⟩
  · rw [squeezed0.kept_eq flagged0.discarded, squeezed1.kept_eq flagged1.discarded]
    exact compared.aligned
  · have bound := short minimal whole across
    rw [squeezed0.kept_eq flagged0.discarded]
    unfold wholeBox at bound
    dsimp only at bound
    rw [sub_zero, sub_zero] at bound
    exact bound

end CompareFiles

/-! ### What is discarded stays flagged -/

/-- The elements of a file that take part in the comparison. -/
def comparedOf (minimal : Bool) (discards : Cells Mark) (equivs : List Nat) : List Nat :=
  ((Int.range 0 equivs.length).filter (stays minimal discards)).map (codeAt equivs)

section Discarded

variable {other : List Nat}

theorem map_codeAt (equivs : List Nat) : (Int.range 0 equivs.length).map (codeAt equivs) = equivs :=
  map_range_getD equivs 0

theorem codeAt_mem {place : Int} (nonneg : 0 ≤ place) (below : place < (equivs.length : Int)) :
    codeAt equivs place ∈ equivs := by
  rw [codeAt, List.getD_eq_getElem?_getD, List.getElem?_eq_getElem (by omega : place.toNat < _)]
  exact List.getElem_mem _

theorem kept_subset (flagged : Int → Bool) {code : Nat}
    (member : code ∈ kept flagged (codeAt equivs) 0 equivs.length) : code ∈ equivs := by
  rw [← map_codeAt equivs]
  exact (kept_sublist flagged (codeAt equivs) 0 equivs.length).subset member

/-- An element that is discarded stands between two that have no match in the other file, and
moving runs of flags does not uncover any of them. -/
theorem Discards.flagged (isDiscards : Discards equivs other discards)
    {changed changed' : Int → Bool}
    (discarded : ∀ place, 0 ≤ place → place < (equivs.length : Int) →
      stays minimal discards place = false → changed place = true)
    (found : ∀ code ∈ kept changed (codeAt equivs) 0 equivs.length, code ∈ other)
    (slides : Slides (codeAt equivs) equivs.length changed changed') {place : Int}
    (nonneg : 0 ≤ place) (below : place < (equivs.length : Int))
    (notStay : stays minimal discards place = false) : changed' place = true := by
  have notStay' := notStay
  simp only [stays, Bool.or_eq_false_iff, decide_eq_false_iff_not] at notStay'
  obtain ⟨notMinimal, marked⟩ := notStay'
  obtain ⟨left, right, leftGe, leftLe, rightGe, rightLt, isLeft, isRight, between⟩ :=
    isDiscards.enclosed place nonneg below marked
  have unkept : ∀ end', 0 ≤ end' → end' < (equivs.length : Int) →
      discards.value end' = .discard → codeAt equivs end' ∉ kept changed (codeAt equivs) 0
        equivs.length :=
    fun end' low high isDiscard member =>
      isDiscards.unmatched end' low high isDiscard (found _ member)
  have pinned : Pinned (codeAt equivs) equivs.length changed left right :=
    ⟨by omega, fun middle above below' => discarded middle (by omega) (by omega) (by
      simp only [stays, notMinimal, Bool.false_or, decide_eq_false_iff_not]
      exact between middle above below'),
      unkept left leftGe (by omega) isLeft, unkept right (by omega) rightLt isRight⟩
  exact (slides.pinned pinned).inside place leftLe rightGe

/-- Nothing is discarded when every element has a match in the other file. -/
theorem Discards.stays_of_subset (isDiscards : Discards equivs other discards)
    (all : ∀ code ∈ equivs, code ∈ other) {place : Int} (nonneg : 0 ≤ place)
    (below : place < (equivs.length : Int)) : stays minimal discards place = true := by
  by_contra notStay
  simp only [stays, Bool.or_eq_true, decide_eq_true_eq, not_or] at notStay
  obtain ⟨left, right, leftGe, leftLe, rightGe, rightLt, isLeft, -, -⟩ :=
    isDiscards.enclosed place nonneg below notStay.2
  exact isDiscards.unmatched left leftGe (by omega) isLeft (all _ (codeAt_mem leftGe (by omega)))

theorem comparedOf_all (all : ∀ place, 0 ≤ place → place < (equivs.length : Int) →
    stays minimal discards place = true) : comparedOf minimal discards equivs = equivs := by
  rw [comparedOf, List.filter_eq_self.mpr fun place member => by
    have bounds := Int.mem_range_iff.mp member
    exact all place bounds.1 bounds.2]
  exact map_codeAt equivs

end Discarded

/-! ### diff_2_files -/

/-- Where a script comes from: the flags whose blocks it spells, and how they were found. -/
structure Explained (minimal : Bool) (equivs0 equivs1 : List Nat) (comparing : Comparing)
    (discards0 discards1 : Cells Mark) (changed0 changed1 : Cells Bool) : Prop where
  isMatch : Matches (codeAt equivs0) (codeAt equivs1) equivs0.length equivs1.length 0 0
    comparing.script
  separated : Separated 0 0 comparing.script
  spells : Spells equivs0.length equivs1.length changed0 changed1 0 0 comparing.script
  aligned : kept changed0.value (codeAt equivs0) 0 equivs0.length =
    kept changed1.value (codeAt equivs1) 0 equivs1.length
  isDiscards0 : Discards equivs0 equivs1 discards0
  isDiscards1 : Discards equivs1 equivs0 discards1
  discarded0 : ∀ place, 0 ≤ place → place < (equivs0.length : Int) →
    stays minimal discards0 place = false → changed0.value place = true
  discarded1 : ∀ place, 0 ≤ place → place < (equivs1.length : Int) →
    stays minimal discards1 place = false → changed1.value place = true
  best : minimal = true → ∀ part ∈ comparing.splits, part.Minimal
  longest : (∀ part ∈ comparing.splits, part.Minimal) → ∀ common : List Nat,
    common.Sublist (comparedOf minimal discards0 equivs0) →
    common.Sublist (comparedOf minimal discards1 equivs1) →
    common.length ≤ (kept changed0.value (codeAt equivs0) 0 equivs0.length).length
  free : comparedOf minimal discards0 equivs0 = comparedOf minimal discards1 equivs1 →
    comparing.splits = []

/-- A common sublist of the compared elements as a path across all of them. -/
theorem across_of_sublist {file0 file1 : Compacted} (speedLargeFiles : Bool) {common : List Nat}
    (sublist0 : common.Sublist file0.undiscarded) (sublist1 : common.Sublist file1.undiscarded) :
    ∃ cost, (comparisonOf speedLargeFiles file0 file1).context.Across (wholeBox file0 file1) cost ∧
      cost + 2 * common.length = file0.undiscarded.length + file1.undiscarded.length := by
  obtain ⟨cost, path, isCost⟩ := @path_of_sublist _
    ((comparisonOf speedLargeFiles file0 file1).context.Same (wholeBox file0 file1)) common
    file0.undiscarded file1.undiscarded 0 0 sublist0 sublist1 fun i j value found found' => by
      obtain ⟨below, isValue⟩ := List.getElem?_eq_some_iff.mp found
      obtain ⟨below', isValue'⟩ := List.getElem?_eq_some_iff.mp found'
      unfold Context.Same wholeBox
      dsimp only
      refine ⟨by omega, by omega, by omega, by omega, ?_⟩
      show file0.undiscarded.getD (0 + (i : Int)).toNat 0 =
        file1.undiscarded.getD (0 + (j : Int)).toNat 0
      simp only [zero_add, Int.toNat_natCast, List.getD_eq_getElem?_getD, found, found']
  rw [zero_add, zero_add] at path
  exact ⟨cost, path, isCost⟩

/-- The comparison of two files always ends. Its script leaves the same elements of both files,
and stands at places that are in order. -/
theorem diff2Files_total (minimal speedLargeFiles : Bool) {equivMax : Nat}
    (small0 : ∀ code ∈ equivs0, code < equivMax) (small1 : ∀ code ∈ equivs1, code < equivMax)
    (addressable : Addressable equivs0 equivs1) :
    ∃ result, diff2Files minimal speedLargeFiles equivMax equivs0 equivs1 = some result ∧
      ∃ discards0 discards1 changed0 changed1,
        Explained minimal equivs0 equivs1 result discards0 discards1 changed0 changed1 := by
  obtain ⟨discards0, discards1, file0, file1, discarded, isDiscards0, isDiscards1, squeezed0,
    squeezed1⟩ := discardConfusingLines_total minimal small0 small1
  obtain ⟨progress, compared, flagged0, flagged1, aligned, best, short, free⟩ :=
    compareFiles_total speedLargeFiles addressable squeezed0 squeezed1
  obtain ⟨changed0, changed1, shifted0, shifted1, flags0, flags1, slides0, slides1⟩ :=
    shiftBoundaries_both flagged0.flags flagged1.flags aligned
  have kept0 : kept changed0.value (codeAt equivs0) 0 equivs0.length =
      kept progress.changed0.value (codeAt equivs0) 0 equivs0.length := slides0.kept_eq
  have kept1 : kept changed1.value (codeAt equivs1) 0 equivs1.length =
      kept progress.changed1.value (codeAt equivs1) 0 equivs1.length := slides1.kept_eq
  obtain ⟨script, built, isMatch, separated, spells⟩ := buildScript_total flags0 flags1
    (kept0.trans (aligned.trans kept1.symm))
  have undiscarded0 : file0.undiscarded = comparedOf minimal discards0 equivs0 := by
    rw [squeezed0.undiscarded, squeezed0.realindexes, comparedOf]
  have undiscarded1 : file1.undiscarded = comparedOf minimal discards1 equivs1 := by
    rw [squeezed1.undiscarded, squeezed1.realindexes, comparedOf]
  refine ⟨⟨script, progress.splits⟩, ?_, discards0, discards1, changed0, changed1, ?_⟩
  · unfold diff2Files
    simp only [discarded, compared, shifted0, shifted1, built, Option.bind_eq_bind,
      Option.bind_some]
    rfl
  · refine ⟨isMatch, separated, spells, kept0.trans (aligned.trans kept1.symm), isDiscards0,
      isDiscards1, fun place => isDiscards0.flagged flagged0.discarded
        (fun code member => kept_subset _ (aligned ▸ member)) slides0,
      fun place => isDiscards1.flagged flagged1.discarded
        (fun code member => kept_subset _ (aligned.symm ▸ member)) slides1, best,
      fun all common sublist0 sublist1 => ?_, fun same => ?_⟩
    · rw [← undiscarded0] at sublist0
      rw [← undiscarded1] at sublist1
      obtain ⟨cost, across, isCost⟩ := across_of_sublist speedLargeFiles sublist0 sublist1
      have bound := short all cost across
      rw [kept0]
      omega
    · rw [← undiscarded0, ← undiscarded1] at same
      have sublist : file0.undiscarded.Sublist file1.undiscarded := by rw [same]
      obtain ⟨cost, across, isCost⟩ := across_of_sublist speedLargeFiles
        (List.Sublist.refl file0.undiscarded) sublist
      rw [← same] at isCost
      obtain rfl : cost = 0 := by omega
      exact free across

/-- The number of elements that a script deletes or inserts. -/
def scriptCost (script : List Change) : Int :=
  (script.map fun change => change.deleted + change.inserted).sum

/-- No change of a script is empty. -/
theorem Separated.length_le {least i : Int} {script : List Change}
    (separated : Separated least i script) : (script.length : Int) ≤ scriptCost script := by
  induction script generalizing least i with
  | nil => exact le_rfl
  | cons change rest inductionHypothesis =>
    obtain ⟨-, positive, tail⟩ := separated
    have := inductionHypothesis tail
    simp only [scriptCost, List.map_cons, List.sum_cons, List.length_cons] at *
    push_cast
    omega

theorem scriptCost_eq (script : List Change) :
    scriptCost script = ((script.map Change.block0).map Prod.snd).sum +
      ((script.map Change.block1).map Prod.snd).sum := by
  induction script with
  | nil => rfl
  | cons change rest inductionHypothesis =>
    simp only [scriptCost, List.map_cons, List.sum_cons, Change.block0, Change.block1] at *
    omega

section Explained

variable {comparing : Comparing} {changed0 changed1 : Cells Bool}

/-- The script deletes and inserts what is not kept. -/
theorem Explained.cost (explained : Explained minimal equivs0 equivs1 comparing discards0 discards1
    changed0 changed1) :
    scriptCost comparing.script = equivs0.length + equivs1.length -
      2 * (kept changed0.value (codeAt equivs0) 0 equivs0.length).length := by
  have length1 := congrArg List.length explained.aligned
  have total0 := explained.spells.blocks0.count_add
  have total1 := explained.spells.blocks1.count_add
  rw [kept_length, kept_length] at length1
  rw [scriptCost_eq, kept_length]
  omega

/-- Without a heuristic, and with nothing discarded, no valid script is shorter. -/
theorem Explained.kept_longest (explained : Explained minimal equivs0 equivs1 comparing discards0
    discards1 changed0 changed1) (all : ∀ part ∈ comparing.splits, part.Minimal)
    (stays0 : comparedOf minimal discards0 equivs0 = equivs0)
    (stays1 : comparedOf minimal discards1 equivs1 = equivs1) :
    longestCommon equivs0 equivs1 =
      (kept changed0.value (codeAt equivs0) 0 equivs0.length).length := by
  refine longestCommon_eq ?_ ?_ fun other sublist0 sublist1 => explained.longest all other
    (by rwa [stays0]) (by rwa [stays1])
  · have sublist := kept_sublist changed0.value (codeAt equivs0) 0 equivs0.length
    rwa [map_codeAt] at sublist
  · have sublist := kept_sublist changed1.value (codeAt equivs1) 0 equivs1.length
    rwa [map_codeAt, ← explained.aligned] at sublist

/-- A file compared with itself gives no change. -/
theorem Explained.script_nil (explained : Explained minimal equivs equivs
    comparing discards0 discards1 changed0 changed1) : comparing.script = [] := by
  have stays0 : comparedOf minimal discards0 equivs = equivs :=
    comparedOf_all fun _ => explained.isDiscards0.stays_of_subset fun _ isOne => isOne
  have stays1 : comparedOf minimal discards1 equivs = equivs :=
    comparedOf_all fun _ => explained.isDiscards1.stays_of_subset fun _ isOne => isOne
  have noSplits := explained.free (stays0.trans stays1.symm)
  have isMinimal : ∀ part ∈ comparing.splits, part.Minimal := by
    rw [noSplits]
    exact fun _ absent => absurd absent List.not_mem_nil
  have all := explained.longest isMinimal equivs (by rw [stays0]) (by rw [stays1])
  have cost := explained.cost
  have few := explained.separated.length_le
  exact List.length_eq_zero_iff.mp (by omega)

end Explained

/-- The comparison of two files always ends, and its script is a valid edit script. -/
theorem diff2Files_valid (minimal speedLargeFiles : Bool) {equivMax : Nat}
    {equivs0 equivs1 : List Nat} (small0 : ∀ code ∈ equivs0, code < equivMax)
    (small1 : ∀ code ∈ equivs1, code < equivMax) (addressable : Addressable equivs0 equivs1) :
    ∃ result, diff2Files minimal speedLargeFiles equivMax equivs0 equivs1 = some result ∧
      Matches (codeAt equivs0) (codeAt equivs1) equivs0.length equivs1.length 0 0 result.script ∧
      Separated 0 0 result.script ∧
      patch (codeAt equivs0) (codeAt equivs1) equivs0.length 0 result.script = equivs1 := by
  obtain ⟨result, returns, _, _, _, _, explained⟩ :=
    diff2Files_total minimal speedLargeFiles small0 small1 addressable
  refine ⟨result, returns, explained.isMatch, explained.separated, ?_⟩
  rw [explained.isMatch.patch_eq]
  exact map_codeAt equivs1

theorem diff2Files_valid_small :
    ∃ result, diff2Files false true 4 [0, 1, 2, 0] [1, 3, 0] = some result ∧
      Matches (codeAt [0, 1, 2, 0]) (codeAt [1, 3, 0]) 4 3 0 0 result.script ∧
      Separated 0 0 result.script ∧
      patch (codeAt [0, 1, 2, 0]) (codeAt [1, 3, 0]) 4 0 result.script = [1, 3, 0] :=
  diff2Files_valid false true (by decide) (by decide) (by decide)

/-- With `minimal` set, the script deletes and inserts no more than it must: all but a longest
common subsequence. -/
theorem diff2Files_minimal (speedLargeFiles : Bool) {equivMax : Nat} {equivs0 equivs1 : List Nat}
    (small0 : ∀ code ∈ equivs0, code < equivMax) (small1 : ∀ code ∈ equivs1, code < equivMax)
    (addressable : Addressable equivs0 equivs1) :
    ∃ result, diff2Files true speedLargeFiles equivMax equivs0 equivs1 = some result ∧
      scriptCost result.script =
        equivs0.length + equivs1.length - 2 * longestCommon equivs0 equivs1 := by
  obtain ⟨result, returns, _, _, _, _, explained⟩ :=
    diff2Files_total true speedLargeFiles small0 small1 addressable
  refine ⟨result, returns, ?_⟩
  rw [explained.cost, explained.kept_longest (explained.best rfl) (comparedOf_all fun _ _ _ => rfl)
    (comparedOf_all fun _ _ _ => rfl)]

theorem diff2Files_minimal_small :
    ∃ result, diff2Files true false 4 [0, 1, 2, 0] [1, 3, 0] = some result ∧
      scriptCost result.script = 4 + 3 - 2 * longestCommon [0, 1, 2, 0] [1, 3, 0] :=
  diff2Files_minimal false (by decide) (by decide) (by decide)

/-! ### Every portion is split -/

/-- The vectors of diagonals that diff_2_files allocates are large enough for every portion. -/
theorem roomy_of_sameBounds {count0 count1 : Nat} {diagonals : Diagonals} {box : Box}
    (bounds : diagonals.SameBounds (allocateDiagonals count0 count1))
    (inRange : box.InRange count0 count1) : diagonals.Roomy box := by
  refine Diagonals.Roomy.narrow ?_ inRange
  obtain ⟨fdLower, fdUpper, bdLower, bdUpper⟩ := bounds
  unfold Diagonals.Roomy Roomy
  rw [fdLower, fdUpper, bdLower, bdUpper]
  simp only [allocateDiagonals, Cells.uninitialised, Cells.filled, Box.dmin, Box.dmax]
  omega

/-- diag always splits a portion whose equal ends have been trimmed, whatever the vectors of
diagonals hold: it reads and writes inside the vectors only, and reports a point of the portion
that is neither corner. So the recursion of compareseq ends. -/
theorem diag_splits {xs ys : List Nat} (addressable : Addressable xs ys)
    (findMinimal heuristic : Bool) (tooExpensive : Int) :
    (∀ (box : Box) (diagonals : Diagonals), box.InRange xs.length ys.length →
      box.xoff < box.xlim → box.yoff < box.ylim →
      codeAt xs box.xoff ≠ codeAt ys box.yoff →
      codeAt xs (box.xlim - 1) ≠ codeAt ys (box.ylim - 1) →
      diagonals.SameBounds (allocateDiagonals xs.length ys.length) →
      ∃ part diagonals',
        diag ⟨Cells.ofList xs 0, Cells.ofList ys 0, heuristic, tooExpensive⟩ box findMinimal
          diagonals = some (part, diagonals') ∧
        diagonals'.SameBounds (allocateDiagonals xs.length ys.length) ∧
        (box.xoff ≤ part.xmid ∧ part.xmid ≤ box.xlim) ∧
        (box.yoff ≤ part.ymid ∧ part.ymid ≤ box.ylim) ∧
        (part.xmid, part.ymid) ≠ (box.xoff, box.yoff) ∧
        (part.xmid, part.ymid) ≠ (box.xlim, box.ylim)) ∧
    ∀ (real0 real1 : List Int) (changed0 changed1 : Cells Bool) (diagonals : Diagonals),
      real0.length = xs.length → real1.length = ys.length → real0.Nodup → real1.Nodup →
      (∀ place ∈ real0, changed0.Inside place ∧ changed0.value place = false) →
      (∀ place ∈ real1, changed1.Inside place ∧ changed1.value place = false) →
      diagonals.SameBounds (allocateDiagonals xs.length ys.length) →
      ∃ progress,
        compareseq ⟨⟨Cells.ofList xs 0, Cells.ofList ys 0, heuristic, tooExpensive⟩,
            Cells.ofList real0 0, Cells.ofList real1 0⟩ (xs.length + ys.length + 1)
          ⟨0, xs.length, 0, ys.length⟩ findMinimal ⟨changed0, changed1, diagonals, []⟩ =
        some progress := by
  refine ⟨fun box diagonals inRange wide tall firstDiffer lastDiffer bounds => ?_,
    fun real0 real1 changed0 changed1 diagonals length0 length1 distinct0 distinct1 free0 free1
      bounds => ?_⟩
  · have proper : box.Proper ⟨Cells.ofList xs 0, Cells.ofList ys 0, heuristic, tooExpensive⟩ := by
      have right := inRange.xlim_le
      have bottom := inRange.ylim_le
      have left := inRange.xoff_nonneg
      have top := inRange.yoff_nonneg
      unfold Addressable at addressable
      refine ⟨⟨fun x above below => Cells.inside_ofList (by omega) (by omega),
        fun y above below => Cells.inside_ofList (by omega) (by omega)⟩, left, top, wide, tall, ?_,
        fun same => firstDiffer same.2.2.2.2, fun same => lastDiffer same.2.2.2.2⟩
      unfold offsetMax
      omega
    obtain ⟨⟨part, diagonals'⟩, answer, midpoint, same⟩ :=
      diag_total findMinimal proper (roomy_of_sameBounds bounds inRange)
    obtain ⟨left, right, top, bottom, after, before⟩ := midpoint.splits
    refine ⟨part, diagonals', answer, ⟨same.fdLower.trans bounds.fdLower,
      same.fdUpper.trans bounds.fdUpper, same.bdLower.trans bounds.bdLower,
      same.bdUpper.trans bounds.bdUpper⟩, ⟨left, right⟩, ⟨top, bottom⟩, fun corner => ?_,
      fun corner => ?_⟩
    · obtain ⟨isX, isY⟩ := Prod.mk.inj corner
      dsimp only at after
      omega
    · obtain ⟨isX, isY⟩ := Prod.mk.inj corner
      dsimp only at before
      omega
  · have whole : Box.InRange ⟨0, xs.length, 0, ys.length⟩ xs.length ys.length :=
      ⟨le_rfl, Int.natCast_nonneg _, le_rfl, le_rfl, Int.natCast_nonneg _, le_rfl⟩
    have place0 : ∀ x : Int, 0 ≤ x → x < xs.length → (Cells.ofList real0 0).value x ∈ real0 :=
      fun x nonneg below => Cells.ofList_mem nonneg (length0 ▸ below)
    have place1 : ∀ y : Int, 0 ≤ y → y < ys.length → (Cells.ofList real1 0).value y ∈ real1 :=
      fun y nonneg below => Cells.ofList_mem nonneg (length1 ▸ below)
    have sized : Comparison.Sized ⟨⟨Cells.ofList xs 0, Cells.ofList ys 0, heuristic, tooExpensive⟩,
        Cells.ofList real0 0, Cells.ofList real1 0⟩ xs.length ys.length := by
      refine ⟨⟨fun _ => Cells.inside_ofList, fun _ => Cells.inside_ofList⟩,
        fun x nonneg below => Cells.inside_ofList nonneg (length0 ▸ below),
        fun y nonneg below => Cells.inside_ofList nonneg (length1 ▸ below),
        fun x x' nonneg below nonneg' below' => Cells.ofList_injective distinct0 nonneg
          (length0 ▸ below) nonneg' (length0 ▸ below'),
        fun y y' nonneg below nonneg' below' => Cells.ofList_injective distinct1 nonneg
          (length1 ▸ below) nonneg' (length1 ▸ below'), ?_⟩
      unfold Addressable at addressable
      unfold offsetMax
      omega
    obtain ⟨progress, answer, -⟩ := compareseq_total sized
      (xs.length + ys.length + 1) ⟨0, xs.length, 0, ys.length⟩ findMinimal
      ⟨changed0, changed1, diagonals, []⟩ whole
      ⟨fun x nonneg below => (free0 _ (place0 x nonneg below)).1,
        fun y nonneg below => (free1 _ (place1 y nonneg below)).1,
        roomy_of_sameBounds bounds whole⟩
      ⟨fun x nonneg below => (free0 _ (place0 x nonneg below)).2,
        fun y nonneg below => (free1 _ (place1 y nonneg below)).2⟩
      (by unfold Box.size; dsimp only; omega)
    exact ⟨progress, answer⟩

theorem diag_splits_small : ∃ part diagonals',
    diag ⟨Cells.ofList [0, 1, 2] 0, Cells.ofList [2, 1, 3] 0, true, 256⟩ ⟨0, 3, 0, 3⟩ false
      (allocateDiagonals 3 3) = some (part, diagonals') ∧
    diagonals'.SameBounds (allocateDiagonals 3 3) ∧
    (0 ≤ part.xmid ∧ part.xmid ≤ 3) ∧ (0 ≤ part.ymid ∧ part.ymid ≤ 3) ∧
    (part.xmid, part.ymid) ≠ (0, 0) ∧ (part.xmid, part.ymid) ≠ (3, 3) :=
  (@diag_splits [0, 1, 2] [2, 1, 3] (by decide) false true 256).1 ⟨0, 3, 0, 3⟩ _
    ⟨by decide, by decide, by decide, by decide, by decide, by decide⟩ (by decide) (by decide)
    (by decide) (by decide) ⟨rfl, rfl, rfl, rfl⟩

end Dwdiff.Diff
