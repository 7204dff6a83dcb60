/-
This file is about the places where the engine stops short of a shortest edit
script. A search that has become too expensive reports the point where one of
its two halves has come furthest, and the two parts of the sequences at that
point are compared on their own. What each part keeps is again as long as it can
be, but the whole is not, and moving the boundaries of the changes can then bring
together a deletion and an insertion of the same elements.
-/

import Dwdiff.Diff.TwoFiles
import Mathlib.Data.List.GetD

namespace Dwdiff.Diff

open EditGraph Selection

variable {minimal : Bool} {discards : Cells Mark} {equivs : List Nat} {comparison : Comparison}
  {depth : Nat} {findMinimal : Bool} {after : Progress} {context : Context} {box : Box}
  {x y place : Int} {cost : Nat}

/-! ### A search that never gives up -/

section Remains

variable {e0 e1 : Int → Nat} {length0 length1 : Nat} {changed0 changed1 : Cells Bool} {i j : Int}

/-- The rest of a script, behind some of its changes: as many elements are kept before it in
the one sequence as in the other. -/
structure Remains (e0 e1 : Int → Nat) (length0 length1 : Nat) (changed0 changed1 : Cells Bool)
    (i j : Int) (script : List Change) : Prop where
  low0 : 0 ≤ i
  low1 : 0 ≤ j
  isMatch : Matches e0 e1 length0 length1 i j script
  separated : ∃ least, Separated least i script ∧ (least = 1 ∨ (i = 0 ∧ j = 0))
  spells : Spells length0 length1 changed0 changed1 i j script
  inStep : count changed0.value 0 i = count changed1.value 0 j

variable {change : Change} {rest : List Change}
  (remains : Remains e0 e1 length0 length1 changed0 changed1 i j (change :: rest))

include remains

/-- Equally many elements are kept before a change. -/
theorem Remains.before :
    count changed0.value 0 change.line0 = count changed1.value 0 change.line1 := by
  obtain ⟨low0, low1, ⟨-, lengths, -⟩, -, ⟨⟨⟨le0, absent0⟩, -⟩, ⟨⟨le1, absent1⟩, -⟩⟩, inStep⟩ :=
    remains
  have gap0 := count_unflagged changed0.value le0 absent0
  have gap1 := count_unflagged changed1.value le1 absent1
  rw [count_append _ low0 le0, count_append _ low1 le1, inStep]
  change (count changed0.value i change.line0 : Int) = change.line0 - i at gap0
  change (count changed1.value j change.line1 : Int) = change.line1 - j at gap1
  omega

theorem Remains.tail :
    Remains e0 e1 length0 length1 changed0 changed1 (change.line0 + change.deleted)
      (change.line1 + change.inserted) rest := by
  have inStep := remains.before
  obtain ⟨low0, low1, ⟨le, lengths, -, deleted, inserted, isMatch⟩, ⟨least, ⟨-, -, separated⟩, -⟩,
    ⟨⟨-, ⟨-, present0⟩, blocks0⟩, ⟨-, ⟨-, present1⟩, blocks1⟩⟩, -⟩ := remains
  refine ⟨by omega, by omega, isMatch, ⟨1, separated, Or.inl rfl⟩, ⟨blocks0, blocks1⟩, ?_⟩
  rw [count_append changed0.value (by omega : 0 ≤ change.line0) (by omega),
    count_append changed1.value (by omega : 0 ≤ change.line1) (by omega), inStep,
    count_flagged _ present0, count_flagged _ present1]

/-- A change starts with its sequences, or behind an element that is kept. -/
theorem Remains.edge :
    (change.line0 = 0 ∨ changed0.value (change.line0 - 1) = false) ∧
      (change.line1 = 0 ∨ changed1.value (change.line1 - 1) = false) := by
  obtain ⟨low0, low1, ⟨le, lengths, -⟩, ⟨least, ⟨apart, -⟩, onset⟩,
    ⟨⟨⟨le0, absent0⟩, -⟩, ⟨⟨le1, absent1⟩, -⟩⟩, -⟩ := remains
  change i ≤ change.line0 at le0
  change j ≤ change.line1 at le1
  rcases Int.lt_or_eq_of_le le with positive | empty
  · exact ⟨Or.inr (absent0 _ (by omega) (by show change.line0 - 1 < change.line0; omega)),
      Or.inr (absent1 _ (by omega) (by show change.line1 - 1 < change.line1; omega))⟩
  · exact ⟨Or.inl (by omega), Or.inl (by omega)⟩

omit remains in
theorem Remains.drop {before : List Change}
    (remains : Remains e0 e1 length0 length1 changed0 changed1 i j (before ++ rest)) :
    ∃ i' j', Remains e0 e1 length0 length1 changed0 changed1 i' j' rest := by
  induction before generalizing i j with
  | nil => exact ⟨i, j, remains⟩
  | cons change before inductionHypothesis => exact inductionHypothesis remains.tail

end Remains

theorem range_map_length (code : Int → Nat) {first last : Int} (ordered : first ≤ last) :
    (((Int.range first last).map code).length : Int) = last - first := by
  rw [List.length_map, Int.range, List.length_map, List.length_range]
  omega

section Uncovered

variable {other : List Nat} {changed : Int → Bool} {first last : Int}

variable (isDiscards : Discards equivs other discards)
  (discarded : ∀ place, 0 ≤ place → place < (equivs.length : Int) →
    stays minimal discards place = false → changed place = true) (low : 0 ≤ first)
  (high : last ≤ equivs.length) (edge : first = 0 ∨ changed (first - 1) = false)
  (found : ∀ place, first ≤ place → place < last → codeAt equivs place ∈ other)

include isDiscards discarded low high edge found

/-- A stretch of elements that have a match in the other file is not discarded, when the element
before it is kept. -/
theorem Discards.stays_of_found (above : first ≤ place) (below : place < last) :
    stays minimal discards place = true := by
  by_contra notStay
  simp only [stays, Bool.or_eq_true, decide_eq_true_eq, not_or, Bool.not_eq_true] at notStay
  obtain ⟨notMinimal, marked⟩ := notStay
  obtain ⟨left, right, leftGe, leftLe, rightGe, rightLt, isLeft, -, between⟩ :=
    isDiscards.enclosed place (by omega) (by omega) marked
  -- The places from the left end on are flagged, so it does not lie before the stretch.
  have starts : first ≤ left := by
    rcases edge with isFirst | kept
    · omega
    · by_contra early
      have flagged := discarded (first - 1) (by omega) (by omega) (by
        simp only [stays, notMinimal, Bool.false_or, decide_eq_false_iff_not]
        exact between _ (by omega) (by omega))
      rw [kept] at flagged
      contradiction
  exact isDiscards.unmatched left leftGe (by omega) isLeft (found left starts (by omega))

/-- Such a stretch and the elements that are kept all take part in the comparison. -/
theorem Discards.uncover_sublist :
    (kept (uncover changed first last) (codeAt equivs) 0 equivs.length).Sublist
      (comparedOf minimal discards equivs) := by
  refine kept_sublist_chosen _ _ fun place nonneg below clear => ?_
  by_cases inside : first ≤ place ∧ place < last
  · exact isDiscards.stays_of_found discarded low high edge found inside.1 inside.2
  · rw [← Bool.not_eq_false]
    intro notStay
    rw [uncover, discarded place nonneg below notStay, ← Bool.decide_and,
      decide_eq_false inside] at clear
    contradiction

end Uncovered

/-- When no search gives up, no change replaces elements by the same elements: a script without
the change would keep more. -/
theorem Explained.differs {equivs0 equivs1 : List Nat} {comparing : Comparing}
    {discards0 discards1 : Cells Mark} {changed0 changed1 : Cells Bool}
    (explained : Explained minimal equivs0 equivs1 comparing discards0 discards1 changed0 changed1)
    (all : ∀ part ∈ comparing.splits, part.Minimal) {i j : Int} {change : Change}
    {rest : List Change}
    (remains : Remains (codeAt equivs0) (codeAt equivs1) equivs0.length equivs1.length changed0
      changed1 i j (change :: rest)) (positive : 0 < change.deleted)
    (sizes : change.deleted = change.inserted) :
    ¬ SameOn (codeAt equivs0) (codeAt equivs1) change.line0 change.line1 change.deleted := by
  intro same
  have before := remains.before
  have edge := remains.edge
  obtain ⟨low0, low1, ⟨le, lengths, -, -, -, isMatch⟩, -,
    ⟨⟨-, ⟨-, present0⟩, -⟩, ⟨-, ⟨-, present1⟩, -⟩⟩, -⟩ := remains
  change ∀ place, change.line0 ≤ place → place < change.line0 + change.deleted →
    changed0.value place = true at present0
  change ∀ place, change.line1 ≤ place → place < change.line1 + change.inserted →
    changed1.value place = true at present1
  have bounds := isMatch.bounds
  rw [← sizes] at bounds present1
  have sublist0 := explained.isDiscards0.uncover_sublist explained.discarded0 (by omega) bounds.1
    edge.1 fun place above below => by
      have equal := same (place - change.line0) (by omega) (by omega)
      rw [add_sub_cancel] at equal
      rw [equal]
      exact codeAt_mem (by omega) (by omega)
  have sublist1 := explained.isDiscards1.uncover_sublist explained.discarded1 (by omega) bounds.2
    edge.2 fun place above below => by
      have equal := same (place - change.line1) (by omega) (by omega)
      rw [add_sub_cancel] at equal
      rw [← equal]
      exact codeAt_mem (by omega) (by omega)
  have around0 := kept_around changed0.value (codeAt equivs0) (by omega : 0 ≤ change.line0)
    (by omega) bounds.1 present0
  have around1 := kept_around changed1.value (codeAt equivs1) (by omega : 0 ≤ change.line1)
    (by omega) bounds.2 present1
  -- The parts around the change are kept in both files as before.
  obtain ⟨same0, same1⟩ := List.append_inj (around0.symm.trans (explained.aligned.trans around1))
    (by rw [kept_length, kept_length, before])
  rw [kept_uncover _ _ (by omega) (by omega) bounds.1] at sublist0
  rw [kept_uncover _ _ (by omega) (by omega) bounds.2, ← same0, ← same1, ← same.map_range]
    at sublist1
  have few := explained.longest all _ sublist0 sublist1
  have length := range_map_length (codeAt equivs0)
    (by omega : change.line0 ≤ change.line0 + change.deleted)
  rw [around0] at few
  simp only [List.length_append] at few
  omega

/-! ### Where a search gives up -/

/-- The first diagonal with the greatest sum is the one that is reported. -/
theorem extreme_first {vector : Cells (Option Int)} {least greatest : Int} (start : Int)
    (clamp : Int → Int → Int × Int) {reach : Int → Int} {d sum : Int} (above : least ≤ d)
    (below : d ≤ greatest) (even : (d - greatest) % 2 = 0)
    (loads : ∀ e, least ≤ e → e ≤ greatest → (e - greatest) % 2 = 0 →
      vector.load e = some (reach e)) (attained : clamp d (reach d) = (x, sum - x))
    (starts : start < sum) (before : ∀ e, d < e → e ≤ greatest → (e - greatest) % 2 = 0 →
      (clamp e (reach e)).1 + (clamp e (reach e)).2 < sum)
    (after : ∀ e, least ≤ e → e < d → (e - greatest) % 2 = 0 →
      (clamp e (reach e)).1 + (clamp e (reach e)).2 ≤ sum) :
    extreme vector least greatest start clamp (fun sum best => best < sum) = some (sum, x) := by
  -- Up to the diagonal the best sum is smaller; behind it nothing is better.
  obtain ⟨result, answer, e, finished, best⟩ := extreme_rule start clamp
    (fun sum best => best < sum)
    (fun e best => d ≤ e ∧ best.1 < sum ∨ e < d ∧ best = (sum, x)) loads
    (Or.inl ⟨below, starts⟩) (by
    intro e best inside within even' isBest
    split
    · next isBetter =>
      rcases lt_trichotomy d e with early | rfl | late
      · exact Or.inl ⟨by omega, before e early within even'⟩
      · rw [attained, add_sub_cancel]
        exact Or.inr ⟨by omega, rfl⟩
      · obtain ⟨-, rfl⟩ := isBest.resolve_left fun early => by omega
        exact absurd (of_decide_eq_true isBetter) (not_lt.mpr (after e inside late even'))
    · next isWorse =>
      rcases isBest with ⟨early, smaller⟩ | ⟨late, isBest⟩
      · rcases Int.lt_or_eq_of_le early with early | rfl
        · exact Or.inl ⟨by omega, smaller⟩
        · rw [attained, add_sub_cancel, decide_eq_true_iff] at isWorse
          exact absurd smaller isWorse
      · exact Or.inr ⟨by omega, isBest⟩)
  rw [answer, (best.resolve_left fun early => by omega).2]

/-- No point of the diagonal that a path can have reached is cut off. -/
theorem le_forwardClamp {d reached x : Int} (behind : x ≤ reached) (right : x ≤ box.xlim)
    (bottom : x - d ≤ box.ylim) : x ≤ (forwardClamp box d reached).1 := by
  unfold forwardClamp
  dsimp only
  split <;> split <;> · dsimp only; omega

/-- The top-down search has come to a point that lies furthest, and the bottom-up search has not
come as far. -/
theorem Searching.giveUp_forward {search : Search} {reach back : Int → Int}
    (searching : Searching context box cost search reach back) (proper : box.Proper context)
    (positive : 0 < cost) (reaches : Path (context.Same box) box.xoff box.yoff cost x y)
    (right : x ≤ box.xlim) (bottom : y ≤ box.ylim) (furthest : ∀ less x' y', less ≤ cost →
      Path (context.Same box) box.xoff box.yoff less x' y' → x' ≤ box.xlim → y' ≤ box.ylim →
      x' + y' ≤ x + y ∧ (x - y < x' - y' → x' + y' < x + y))
    (ahead : ∀ less x' y', less ≤ cost → Path (context.Same box) x' y' less box.xlim box.ylim →
      box.xoff ≤ x' → box.yoff ≤ y' →
      box.xlim + box.ylim - (x' + y') < x + y - (box.xoff + box.yoff)) :
    giveUp box search = some ⟨x, y, true, false⟩ := by
  have forward := searching.forward
  have ordered := reaches.ordered
  have drift := reaches.drift
  have parity : OnParity (box.xoff - box.yoff) cost (x - y) := reaches.parity
  have isEven : ((x - y) - search.fmax) % 2 = 0 := by
    have := forward.high_parity
    unfold OnParity at *
    omega
  obtain ⟨above, below⟩ := forward.covers (x - y) (by omega) (by omega) parity (by omega) (by omega)
  -- The search has come at least to the point, and nothing on its diagonal lies further.
  have attained : forwardClamp box (x - y) (reach (x - y)) = (x, x + y - x) := by
    obtain ⟨x', clamped, -, right', -, bottom', less, fewer, path⟩ :=
      searching.forwardClamped proper above below isEven
    have atLeast := @le_forwardClamp box (x - y) _ x (forward.complete x y right bottom reaches)
      right (by omega)
    have atMost := (furthest less x' _ fewer path right' bottom').1
    rw [clamped] at atLeast ⊢
    dsimp only at atLeast
    obtain rfl : x' = x := by omega
    rw [Prod.mk.injEq]
    omega
  have sums : ∀ e, search.fmin ≤ e → e ≤ search.fmax → (e - search.fmax) % 2 = 0 →
      (forwardClamp box e (reach e)).1 + (forwardClamp box e (reach e)).2 ≤ x + y ∧
      (x - y < e →
        (forwardClamp box e (reach e)).1 + (forwardClamp box e (reach e)).2 < x + y) := by
    intro e above' below' even'
    obtain ⟨x', clamped, -, right', -, bottom', less, fewer, path⟩ :=
      searching.forwardClamped proper above' below' even'
    have far := furthest less x' _ fewer path right' bottom'
    rw [clamped]
    exact ⟨far.1, fun later => far.2 (by omega)⟩
  have forwardAnswer := extreme_first (-1) (forwardClamp box) above below isEven
    (fun e above' below' even' =>
      searching.fdHolds e above' below' (forward.high_parity.of_even even')) attained
    (by have := proper.xoff_nonneg; have := proper.yoff_nonneg; omega)
    (fun e later below' even' => (sums e (by omega) below' even').2 later)
    (fun e above' earlier even' => (sums e above' (by omega) even').1)
  obtain ⟨bxybest, bxbest, backwardAnswer, left', -, top', -, -, less, fewer, path⟩ :=
    searching.backwardExtreme proper positive
  have slower := ahead less bxbest _ fewer path left' top'
  unfold giveUp
  rw [forwardAnswer, backwardAnswer]
  simp only [Option.bind_eq_bind, Option.bind_some]
  rw [if_pos (by omega), add_sub_cancel_left]
  rfl

/-! ### What a shortest script keeps -/

theorem Context.exists_common {x' y' : Int} (path : Path (context.Same box) x y cost x' y') :
    ∃ common : List Nat, common.Sublist ((Int.range x x').map context.xvec.value) ∧
      common.Sublist ((Int.range y y').map context.yvec.value) ∧
      (cost : Int) + 2 * common.length = x' - x + (y' - y) :=
  path.exists_common fun _ _ same => same.2.2.2.2

/-- A common sublist of the two portions as a path across them. -/
theorem Context.across_of_common (wide : box.xoff ≤ box.xlim) (tall : box.yoff ≤ box.ylim)
    {common : List Nat}
    (sublist0 : common.Sublist ((Int.range box.xoff box.xlim).map context.xvec.value))
    (sublist1 : common.Sublist ((Int.range box.yoff box.ylim).map context.yvec.value)) :
    ∃ cost, context.Across box cost ∧
      (cost : Int) + 2 * common.length = box.xlim - box.xoff + (box.ylim - box.yoff) := by
  have entry : ∀ {values : Int → Nat} {first last : Int} {index : Nat} {value : Nat},
      ((Int.range first last).map values)[index]? = some value →
      (index : Int) < last - first ∧ values (first + index) = value := by
    intro values first last index value found
    obtain ⟨below, isValue⟩ := List.getElem?_eq_some_iff.mp found
    rw [List.length_map, Int.range, List.length_map, List.length_range] at below
    refine ⟨by omega, ?_⟩
    rw [← isValue]
    simp [Int.range]
  obtain ⟨cost, path, isCost⟩ := @path_of_sublist _ (context.Same box) common _ _ box.xoff box.yoff
    sublist0 sublist1 fun i j value found found' => by
      obtain ⟨below, isValue⟩ := entry found
      obtain ⟨below', isValue'⟩ := entry found'
      exact ⟨by omega, by omega, by omega, by omega, isValue.trans isValue'.symm⟩
  have lengthX := range_map_length context.xvec.value wide
  have lengthY := range_map_length context.yvec.value tall
  rw [lengthX, lengthY, add_sub_cancel, add_sub_cancel] at path
  exact ⟨cost, path, by omega⟩

/-- No common sublist of the two portions is longer than what a call keeps that looks for a
shortest script. -/
theorem Compared.longest {before : Progress}
    (compared : Compared comparison box true before after) (wide : box.xoff ≤ box.xlim)
    (tall : box.yoff ≤ box.ylim) {common : List Nat}
    (sublist0 : common.Sublist ((Int.range box.xoff box.xlim).map comparison.context.xvec.value))
    (sublist1 : common.Sublist ((Int.range box.yoff box.ylim).map comparison.context.yvec.value)) :
    common.length ≤ (kept (after.flag0 comparison) comparison.context.xvec.value box.xoff
      box.xlim).length := by
  obtain ⟨splits, -, minimal, short⟩ := compared.history
  obtain ⟨cost, across, isCost⟩ := Context.across_of_common wide tall sublist0 sublist1
  have bound := short (minimal rfl) cost across
  omega

/-! ### A portion whose ends differ -/

theorem slideDown_stays (covers : context.Covers box)
    (differ : ¬ context.Same box box.xoff box.yoff) :
    slideDown context box.xlim box.ylim box.fmid box.xoff = some box.xoff := by
  have middle := box.xoff_sub_fmid
  obtain ⟨x, slides, climbs⟩ := slideDown_climbs covers (d := box.fmid) (le_refl box.xoff)
    (by omega)
  rcases Int.lt_or_eq_of_le climbs.le with further | rfl
  · exact absurd (middle ▸ climbs.equal box.xoff le_rfl further) differ
  · exact slides

theorem slideUp_stays (covers : context.Covers box)
    (differ : ¬ context.Same box (box.xlim - 1) (box.ylim - 1)) :
    slideUp context box.xoff box.yoff box.bmid box.xlim = some box.xlim := by
  have middle : box.xlim - 1 - box.bmid = box.ylim - 1 := by unfold Box.bmid; ring
  obtain ⟨x, slides, climbs⟩ := slideUp_climbs covers (d := box.bmid) (le_refl box.xlim)
    (by unfold Box.bmid; omega)
  rcases Int.lt_or_eq_of_le climbs.le with further | rfl
  · exact absurd (middle ▸ climbs.equal (box.xlim - 1) (by omega) (by omega)) differ
  · exact slides

/-- Equal ends are trimmed first. -/
theorem compareseq_trims {comparison : Comparison} {first last : Int}
    (down : slideDown comparison.context box.xlim box.ylim box.fmid box.xoff = some first)
    (up : slideUp comparison.context first (first - box.fmid) box.bmid box.xlim = some last)
    (proper : Box.Proper ⟨first, last, first - box.fmid, last - box.bmid⟩ comparison.context)
    (depth : Nat) (findMinimal : Bool) (before : Progress) :
    compareseq comparison (depth + 1) box findMinimal before =
      compareseq comparison (depth + 1) ⟨first, last, first - box.fmid, last - box.bmid⟩ findMinimal
        before := by
  have stays := slideDown_stays proper.covers proper.firstDiffer
  have stays' := slideUp_stays proper.covers proper.lastDiffer
  rw [compareseq.eq_2, compareseq.eq_2]
  unfold Box.fmid Box.bmid at *
  dsimp only at stays stays' up ⊢
  rw [sub_sub_cancel] at stays stays'
  simp only [down, up, stays, stays', Option.bind_eq_bind, Option.bind_some, sub_sub_cancel]

/-- A call of compareseq that returns. -/
structure Call (comparison : Comparison) (count0 count1 : Int) (depth : Nat) (box : Box)
    (findMinimal : Bool) (before after : Progress) : Prop where
  inRange : box.InRange count0 count1
  fits : before.Fits comparison count0 count1
  fresh : before.Fresh comparison box
  enough : box.size < depth
  answer : compareseq comparison depth box findMinimal before = some after

section Call

variable {count0 count1 : Int} {before : Progress} (sized : comparison.Sized count0 count1)

include sized

theorem Call.compared (call : Call comparison count0 count1 depth box findMinimal before after) :
    Compared comparison box findMinimal before after := by
  obtain ⟨other, answer, compared⟩ := compareseq_total sized depth box findMinimal before
    call.inRange call.fits call.fresh call.enough
  rw [Option.some.inj (call.answer.symm.trans answer)]
  exact compared

/-- A call on such a portion looks for a midpoint, and compares the two halves. -/
theorem Call.halves
    (call : Call comparison count0 count1 (depth + 1) box findMinimal before after)
    (proper : box.Proper comparison.context) :
    ∃ part before' between cost, Midpoint comparison.context box findMinimal part ∧
      Report comparison.context box findMinimal cost part ∧
      (findMinimal = false → cost = 1 ∨ cost ≤ comparison.context.tooExpensive) ∧
      Call comparison count0 count1 depth ⟨box.xoff, part.xmid, box.yoff, part.ymid⟩
        part.loMinimal before' between ∧
      Call comparison count0 count1 depth ⟨part.xmid, box.xlim, part.ymid, box.ylim⟩
        part.hiMinimal between after := by
  have wide := proper.wide
  have tall := proper.tall
  have middle := box.xoff_sub_fmid
  have middle' := box.xlim_sub_bmid
  obtain ⟨⟨part, diagonals⟩, found, midpoint, bounds, cost, -, report, cheap⟩ :=
    diag_reports findMinimal proper (call.fits.roomy.narrow call.inRange)
  have unfolds := compareseq.eq_2 comparison box findMinimal before depth
  simp only [slideDown_stays proper.covers proper.firstDiffer, Option.bind_eq_bind,
    Option.bind_some, middle, slideUp_stays proper.covers proper.lastDiffer, middle',
    if_neg (ne_of_lt wide), if_neg (ne_of_lt tall), found] at unfolds
  obtain ⟨between, low, high⟩ := Option.bind_eq_some_iff.mp (unfolds.symm.trans call.answer)
  obtain ⟨left, right, top, bottom, later, earlier⟩ := midpoint.splits
  obtain ⟨xoffNonneg, -, xlimLe, yoffNonneg, -, ylimLe⟩ := call.inRange
  have enough := call.enough
  dsimp only at left right top bottom later earlier low high
  unfold Box.size at enough
  have lowCall : Call comparison count0 count1 depth ⟨box.xoff, part.xmid, box.yoff, part.ymid⟩
      part.loMinimal { before with diagonals, splits := part :: before.splits } between :=
    ⟨⟨xoffNonneg, left, right.trans xlimLe, yoffNonneg, top, bottom.trans ylimLe⟩,
      call.fits.handOver bounds _,
      ⟨fun x above below => call.fresh.x x above (lt_of_lt_of_le below right),
        fun y above below => call.fresh.y y above (lt_of_lt_of_le below bottom)⟩,
      by unfold Box.size; dsimp only; omega, low⟩
  have lowCompared := lowCall.compared sized
  have starts : ({ before with diagonals, splits := part :: before.splits } : Progress).Fresh
      comparison box := ⟨call.fresh.x, call.fresh.y⟩
  refine ⟨part, _, between, cost, midpoint, report, cheap, lowCall, ⟨xoffNonneg.trans left, right,
    xlimLe, yoffNonneg.trans top, bottom, ylimLe⟩, lowCompared.fits lowCall.fits,
    Compared.fresh sized call.inRange starts midpoint.splits lowCompared,
    by unfold Box.size; dsimp only; omega, high⟩

/-- The second half does not touch the flags of the first. -/
theorem Call.flags_before
    (call : Call comparison count0 count1 depth box findMinimal before after) :
    (∀ x, 0 ≤ x → x < box.xoff → after.flag0 comparison x = before.flag0 comparison x) ∧
    ∀ y, 0 ≤ y → y < box.yoff → after.flag1 comparison y = before.flag1 comparison y := by
  obtain ⟨left, right, xlimLe, top, bottom, ylimLe⟩ := call.inRange
  have compared := call.compared sized
  exact ⟨fun x nonneg below => compared.framed0.flag_eq sized.injective0 left xlimLe nonneg
      (by omega) (Or.inl below),
    fun y nonneg below => compared.framed1.flag_eq sized.injective1 top ylimLe nonneg (by omega)
      (Or.inl below)⟩

end Call

/-! ### Sequences of which nothing is discarded -/

section Whole

variable {file : Compacted}

theorem Squeezed.whole (squeezed : Squeezed minimal discards equivs equivs.length file)
    (all : ∀ place, 0 ≤ place → place < (equivs.length : Int) →
      stays minimal discards place = true) :
    file.realindexes = Int.range 0 equivs.length ∧ file.undiscarded = equivs ∧
      ∀ place, file.changed.value place = false := by
  have isRange : file.realindexes = Int.range 0 equivs.length := by
    rw [squeezed.realindexes, List.filter_eq_self.mpr fun place member => ?_]
    have bounds := Int.mem_range_iff.mp member
    exact all place bounds.1 bounds.2
  refine ⟨isRange, by rw [squeezed.undiscarded, isRange, map_codeAt], fun place => ?_⟩
  rw [squeezed.changed]
  by_cases inside : 0 ≤ place ∧ place < (equivs.length : Int)
  · rw [all place inside.1 inside.2, Bool.not_true, Bool.and_false]
  · rw [decide_eq_false inside, Bool.false_and]

theorem ofList_range {count : Nat} (nonneg : 0 ≤ place) (below : place < count) :
    (Cells.ofList (Int.range 0 count) 0).value place = place := by
  rw [Cells.value_ofList nonneg (by simpa [Int.range] using below)]
  simp [Int.range, nonneg]

/-- The flags that a comparison leaves, when they are known for every element. -/
theorem Framed.eq_mk (squeezed : Squeezed minimal discards equivs equivs.length file)
    (all : ∀ place, 0 ≤ place → place < (equivs.length : Int) →
      stays minimal discards place = true) {changed : Cells Bool}
    (framed : Framed (Cells.ofList file.realindexes 0) 0 equivs.length file.changed changed)
    {flags : Int → Bool}
    (inside : ∀ place, 0 ≤ place → place < (equivs.length : Int) →
      changed.value ((Cells.ofList file.realindexes 0).value place) = flags place)
    (outside : ∀ place, ¬ (0 ≤ place ∧ place < (equivs.length : Int)) → flags place = false) :
    changed = ⟨-1, equivs.length, flags⟩ := by
  obtain ⟨isRange, -, clear⟩ := squeezed.whole all
  have lower := framed.lower.trans squeezed.lower
  have upper := framed.upper.trans squeezed.upper
  have values : changed.value = flags := by
    funext place
    by_cases within : 0 ≤ place ∧ place < (equivs.length : Int)
    · rw [← inside place within.1 within.2, isRange, ofList_range within.1 within.2]
    · rw [outside place within, framed.value place, clear place]
      intro x nonneg below
      rw [isRange, ofList_range nonneg below]
      rintro rfl
      exact within ⟨nonneg, below⟩
  obtain ⟨_, _, _⟩ := changed
  dsimp only at lower upper values
  rw [lower, upper, values]

end Whole

/-! ### Two sequences that stutter -/

section Stuttering

theorem codeAt_left {front back : List Nat} (nonneg : 0 ≤ place) (below : place < front.length) :
    codeAt (front ++ back) place = codeAt front place := by
  unfold codeAt
  rw [List.getD_append _ _ _ _ (by omega)]

theorem codeAt_right {front back : List Nat} (above : front.length ≤ place) :
    codeAt (front ++ back) place = codeAt back (place - front.length) := by
  unfold codeAt
  rw [List.getD_append_right _ _ _ _ (by omega),
    show (place - front.length).toNat = place.toNat - front.length by omega]

theorem codeAt_replicate {count code : Nat} (nonneg : 0 ≤ place) (below : place < count) :
    codeAt (List.replicate count code) place = code := by
  unfold codeAt
  rw [List.getD_replicate _ (by omega)]

/-- The windows of three words of a short text that repeats one word. -/
def stutteringOld : List Nat := [0, 1, 2, 3, 4, 4, 5, 6, 7, 8, 9]

/-- The windows of a long text in which most of the first one occurs, first in part and then
whole. -/
def stutteringNew : List Nat :=
  [0, 1] ++ (List.replicate 255 7 ++ ([2, 3, 5, 6, 7, 2, 3, 4, 4, 5, 6] ++
    (List.replicate 258 7 ++ [8, 9])))

theorem stutteringOld_at {x : Int} (left : 2 ≤ x) (right : x < 8) :
    codeAt stutteringOld x = 2 ∧ x = 2 ∨ codeAt stutteringOld x = 3 ∧ x = 3 ∨
      codeAt stutteringOld x = 4 ∧ (x = 4 ∨ x = 5) ∨ codeAt stutteringOld x = 5 ∧ x = 6 ∨
      codeAt stutteringOld x = 6 ∧ x = 7 := by
  obtain rfl | rfl | rfl | rfl | rfl | rfl : x = 2 ∨ x = 3 ∨ x = 4 ∨ x = 5 ∨ x = 6 ∨ x = 7 := by
    omega
  all_goals decide

theorem stutteringNew_at {y : Int} (top : 2 ≤ y) (bottom : y < 526) :
    codeAt stutteringNew y = 7 ∧ (y < 257 ∨ y = 261 ∨ 268 ≤ y) ∨
      codeAt stutteringNew y = 2 ∧ (y = 257 ∨ y = 262) ∨
      codeAt stutteringNew y = 3 ∧ (y = 258 ∨ y = 263) ∨
      codeAt stutteringNew y = 4 ∧ (y = 264 ∨ y = 265) ∨
      codeAt stutteringNew y = 5 ∧ (y = 259 ∨ y = 266) ∨
      codeAt stutteringNew y = 6 ∧ (y = 260 ∨ y = 267) := by
  have lengths : ∀ count : Nat, ((List.replicate count 7).length : Int) = count := fun count => by
    rw [List.length_replicate]
  unfold stutteringNew
  rw [codeAt_right (by simpa using top)]
  rcases lt_or_ge y 257 with early | later
  · rw [codeAt_left (by simp; omega) (by rw [lengths]; simp; omega),
      codeAt_replicate (by simp; omega) (by simp; omega)]
    exact Or.inl ⟨rfl, Or.inl early⟩
  · rw [codeAt_right (by rw [lengths]; simp; omega), lengths]
    rcases lt_or_ge y 268 with early | late
    · rw [codeAt_left (by simp; omega) (by simp; omega)]
      obtain rfl | rfl | rfl | rfl | rfl | rfl | rfl | rfl | rfl | rfl | rfl :
          y = 257 ∨ y = 258 ∨ y = 259 ∨ y = 260 ∨ y = 261 ∨ y = 262 ∨ y = 263 ∨ y = 264 ∨
          y = 265 ∨ y = 266 ∨ y = 267 := by
        omega
      all_goals decide
    · rw [codeAt_right (by simp; omega), codeAt_left (by simp; omega)
        (by rw [lengths]; simp; omega), codeAt_replicate (by simp; omega) (by simp; omega)]
      exact Or.inl ⟨rfl, Or.inr (Or.inr late)⟩

/-- A stretch between the two long runs, read from the list of what stands there. -/
theorem stutteringNew_stretch {first last : Int} (low : 257 ≤ first) (high : last ≤ 268) :
    (Int.range first last).map (codeAt stutteringNew) = (Int.range first last).map fun place =>
      codeAt [2, 3, 5, 6, 7, 2, 3, 4, 4, 5, 6] (place - 257) := by
  refine List.map_congr_left fun place member => ?_
  have bounds := Int.mem_range_iff.mp member
  have front : ∀ back : List Nat, codeAt ([0, 1] ++ (List.replicate 255 7 ++ back)) place =
      codeAt back (place - 257) := fun back => by
    rw [codeAt_right (by simp; omega), codeAt_right (by rw [List.length_replicate]; simp; omega),
      List.length_replicate]
    congr 1
    simp
    omega
  unfold stutteringNew
  rw [front, codeAt_left (by omega) (by simp; omega)]

theorem stutteringNew_end : codeAt stutteringNew 525 = 7 ∧ codeAt stutteringNew 526 = 8 ∧
    codeAt stutteringNew 527 = 9 := by decide +kernel

/-- A comparison of the two sequences without the heuristic. -/
structure Stutters (comparison : Comparison) : Prop where
  sized : comparison.Sized 11 528
  x : comparison.context.xvec.value = codeAt stutteringOld
  y : comparison.context.yvec.value = codeAt stutteringNew
  heuristic : comparison.context.heuristic = false
  tooExpensive : comparison.context.tooExpensive = 256

variable {before : Progress}

variable (stutters : Stutters comparison)

include stutters

/-- A call that looks for a shortest script, when only one list is as long as what it can keep and
the elements of this list occur once. -/
theorem Stutters.flags_of_common {xoff xlim yoff ylim : Int}
    (call : Call comparison 11 528 depth ⟨xoff, xlim, yoff, ylim⟩ true before after)
    {common : List Nat}
    (sublist0 : common.Sublist ((Int.range xoff xlim).map (codeAt stutteringOld)))
    (sublist1 : common.Sublist ((Int.range yoff ylim).map (codeAt stutteringNew)))
    (only : ∀ keeps : List Nat,
      keeps.Sublist ((Int.range xoff xlim).map (codeAt stutteringOld)) →
      keeps.Sublist ((Int.range yoff ylim).map (codeAt stutteringNew)) →
      common.length ≤ keeps.length → keeps = common)
    (once0 : ∀ x other, xoff ≤ x → x < xlim → xoff ≤ other → other < xlim →
      codeAt stutteringOld x ∈ common → codeAt stutteringOld other = codeAt stutteringOld x →
      other = x) (once1 : ∀ y other, yoff ≤ y → y < ylim → yoff ≤ other → other < ylim →
      codeAt stutteringNew y ∈ common → codeAt stutteringNew other = codeAt stutteringNew y →
      other = y) :
    (∀ x, xoff ≤ x → x < xlim →
      after.flag0 comparison x = decide (codeAt stutteringOld x ∉ common)) ∧
    ∀ y, yoff ≤ y → y < ylim →
      after.flag1 comparison y = decide (codeAt stutteringNew y ∉ common) := by
  rw [← stutters.x] at sublist0 only ⊢
  rw [← stutters.y] at sublist1 only ⊢
  have compared := call.compared stutters.sized
  have long := compared.longest call.inRange.wide call.inRange.tall sublist0 sublist1
  have isCommon := only _ (kept_sublist _ _ _ _)
    (compared.aligned ▸ kept_sublist _ _ _ _) long
  rw [← stutters.x] at once0
  rw [← stutters.y] at once1
  exact ⟨fun x left right => flag_of_kept _ _ isCommon once0 left right,
    fun y top bottom => flag_of_kept _ _ (compared.aligned.symm.trans isCommon) once1 top bottom⟩

/-- The part up to the point where the search gives up: a deletion at its end. -/
theorem Stutters.low (call : Call comparison 11 528 depth ⟨2, 5, 2, 259⟩ true before after) :
    (∀ x, 2 ≤ x → x < 5 → after.flag0 comparison x = decide (x = 4)) ∧
    ∀ y, 2 ≤ y → y < 259 → after.flag1 comparison y = decide (y < 257) := by
  have within : ∀ keeps ∈ ([2, 3, 4] : List Nat).sublists, 4 ∉ keeps → 2 ≤ keeps.length →
      keeps = [2, 3] := by decide
  obtain ⟨flags0, flags1⟩ := @Stutters.flags_of_common _ _ _ _ stutters _ _ _ _ call [2, 3]
    (by decide) (by
      rw [show Int.range 2 259 = Int.range 2 257 ++ Int.range 257 259 from
        range_append (by decide) (by decide), List.map_append,
        @stutteringNew_stretch 257 259 (by decide) (by decide)]
      exact List.Sublist.trans (by decide) (List.sublist_append_right _ _))
    (fun keeps sublist sublist' long => by
      refine within keeps (List.mem_sublists.mpr sublist) (fun member => ?_) long
      obtain ⟨y, isPlace, isCode⟩ := List.mem_map.mp (sublist'.subset member)
      have bounds := Int.mem_range_iff.mp isPlace
      have := @stutteringNew_at y (by omega) (by omega)
      omega)
    (fun x other left right left' right' _ isCode => by
      have := stutteringOld_at left (by omega)
      have := stutteringOld_at left' (by omega)
      omega)
    (fun y other top bottom top' bottom' member isCode => by
      have := stutteringNew_at top (by omega)
      have := stutteringNew_at top' (by omega)
      rw [List.mem_cons, List.mem_singleton] at member
      omega)
  refine ⟨fun x left right => ?_, fun y top bottom => ?_⟩
  · have := stutteringOld_at left (by omega)
    rw [flags0 x left right, decide_eq_decide, List.mem_cons, List.mem_singleton]
    omega
  · have := stutteringNew_at top (by omega)
    rw [flags1 y top bottom, decide_eq_decide, List.mem_cons, List.mem_singleton]
    omega

/-- The flags of the other part, with `tail` windows at its end. -/
structure HighFlags (comparison : Comparison) (after : Progress) (tail : Int) : Prop where
  x : ∀ x, 5 ≤ x → x < 8 → after.flag0 comparison x = false
  y : ∀ y, 259 ≤ y → y < 268 + tail →
    after.flag1 comparison y = decide (¬ (y = 264 ∨ y = 266 ∨ y = 267))

/-- In that part the searches meet half-way on a script that keeps all of the first sequence. -/
theorem Stutters.midpoint {tail : Nat} (some : 0 < tail) (most : tail ≤ 257) {part : Partition}
    (midpoint : Midpoint comparison.context ⟨5, 8, 259, 268 + tail⟩ findMinimal part)
    (report : Report comparison.context ⟨5, 8, 259, 268 + tail⟩ findMinimal cost part) :
    (part.loMinimal = true ∧ part.hiMinimal = true) ∧ cost = (7 + tail) / 2 ∧
      part.ymid = part.xmid + 254 + cost ∧
      (tail % 2 = 1 → ¬ comparison.context.Same ⟨5, 8, 259, 268 + tail⟩ part.xmid part.ymid) ∧
      ((Int.range 5 part.xmid).map (codeAt stutteringOld)).Sublist
        ((Int.range 259 part.ymid).map (codeAt stutteringNew)) ∧
      ((Int.range part.xmid 8).map (codeAt stutteringOld)).Sublist
        ((Int.range part.ymid (268 + tail)).map (codeAt stutteringNew)) := by
  obtain ⟨left, right, top, bottom, -, -⟩ := midpoint.splits
  dsimp only at left right top bottom
  -- All of the first sequence can be kept.
  obtain ⟨whole, across, isWhole⟩ := @Context.across_of_common comparison.context
    ⟨5, 8, 259, 268 + tail⟩ (by dsimp only; omega) (by dsimp only; omega) [4, 5, 6]
    (by dsimp only; rw [stutters.x]; decide) (by
      dsimp only
      rw [stutters.y, range_append (by decide : (259 : Int) ≤ 264) (by omega),
        range_append (by decide : (264 : Int) ≤ 268) (by omega), List.map_append, List.map_append,
        @stutteringNew_stretch 264 268 (by decide) (by decide)]
      exact List.Sublist.trans (by decide) ((List.sublist_append_left _ _).trans
        (List.sublist_append_right _ _)))
  simp only [List.length_cons, List.length_nil] at isWhole
  cases report with
  | guessed _ heuristic =>
    rw [stutters.heuristic] at heuristic
    contradiction
  | gaveUp _ _ _ _ expensive searching _ =>
    have := searching.bound whole across
    rw [stutters.tooExpensive] at expensive
    omega
  | met second minimal isHalf lo hi least =>
    have short := least whole across
    have long := (lo.trans hi).drift
    dsimp only at lo hi
    obtain ⟨common, sublist, sublist', isCost⟩ := Context.exists_common lo
    obtain ⟨common', sublist'', sublist''', isCost'⟩ := Context.exists_common hi
    rw [stutters.x] at sublist sublist''
    rw [stutters.y] at sublist' sublist'''
    have size := sublist.length_le
    have size' := sublist''.length_le
    have front := range_map_length (codeAt stutteringOld) left
    have rest := range_map_length (codeAt stutteringOld) right
    dsimp only at isCost isCost' long
    refine ⟨minimal, ?_, ?_, fun odd => ?_, ?_, ?_⟩
    · rcases isHalf with half | ⟨half, -⟩
      · omega
      · omega
    · omega
    · refine (isHalf.resolve_left fun half => ?_).2
      omega
    · rwa [← sublist.eq_of_length (by omega)]
    · rwa [← sublist''.eq_of_length (by omega)]

theorem Stutters.proper {xoff yoff ylim : Int}
    (first : xoff = 2 ∧ yoff = 2 ∨ xoff = 5 ∧ yoff = 259) (last : 268 < ylim ∧ ylim ≤ 525) :
    Box.Proper ⟨xoff, 8, yoff, ylim⟩ comparison.context := by
  have inRange : Box.InRange ⟨xoff, 8, yoff, ylim⟩ 11 528 := by constructor <;> dsimp only <;> omega
  refine inRange.proper stutters.sized (by dsimp only; omega) (by dsimp only; omega) ?_ ?_
  all_goals
    rintro ⟨-, -, -, -, isCode⟩
    rw [stutters.x, stutters.y] at isCode
    dsimp only at isCode
  · have := @stutteringOld_at xoff (by omega) (by omega)
    have := @stutteringNew_at yoff (by omega) (by omega)
    omega
  · have := @stutteringOld_at (8 - 1) (by decide) (by decide)
    have := @stutteringNew_at (ylim - 1) (by omega) (by omega)
    omega

theorem Stutters.wholeProper : Box.Proper ⟨2, 8, 2, 525⟩ comparison.context :=
  stutters.proper (Or.inl ⟨rfl, rfl⟩) (by decide)

/-- As long as there is a long tail, it is halved. -/
theorem Stutters.halveTail {tail : Nat} (many : 7 ≤ tail) (most : tail ≤ 257)
    (shorter : ∀ {depth : Nat} {before after : Progress},
      Call comparison 11 528 depth ⟨5, 8, 259, 268 + ((tail - 5) / 2 : Nat)⟩ true before after →
      HighFlags comparison after ((tail - 5) / 2 : Nat))
    (call : Call comparison 11 528 depth ⟨5, 8, 259, 268 + tail⟩ findMinimal before after) :
    HighFlags comparison after tail := by
  obtain ⟨depth, rfl⟩ := Nat.exists_eq_succ_of_ne_zero (Nat.ne_zero_of_lt call.enough)
  obtain ⟨part, before', between, cost, midpoint, report, -, low, high⟩ :=
    call.halves stutters.sized (stutters.proper (Or.inr ⟨rfl, rfl⟩) ⟨by omega, by omega⟩)
  obtain ⟨⟨loMinimal, hiMinimal⟩, isCost, isY, -, -, rest⟩ :=
    stutters.midpoint (by omega) most midpoint report
  obtain ⟨left, right, top, bottom, -, -⟩ := midpoint.splits
  dsimp only at left right top bottom
  -- Half of the edits lead behind the last match.
  have behind : part.xmid = 8 := by
    by_contra inside
    have code : codeAt stutteringOld part.xmid ∈
        (Int.range part.ymid (268 + tail)).map (codeAt stutteringNew) := rest.subset
      (List.mem_map.mpr ⟨_, Int.mem_range_iff.mpr ⟨le_rfl, by omega⟩, rfl⟩)
    obtain ⟨y, isPlace, isCode⟩ := List.mem_map.mp code
    have bounds := Int.mem_range_iff.mp isPlace
    have := @stutteringOld_at part.xmid (by omega) (by omega)
    have := @stutteringNew_at y (by omega) (by omega)
    omega
  have isMiddle : part.ymid = 268 + ((tail - 5) / 2 : Nat) := by omega
  rw [loMinimal, behind, isMiddle] at low
  have flags := shorter low
  rw [hiMinimal] at high
  have compared := high.compared stutters.sized
  obtain ⟨same0, same1⟩ := high.flags_before stutters.sized
  dsimp only at same0 same1
  -- Behind it, there is nothing left of the first sequence.
  have nothing := compared.aligned
  dsimp only at nothing
  rw [kept_of_le _ _ (by omega : (8 : Int) ≤ part.xmid)] at nothing
  refine ⟨fun x left right => ?_, fun y top bottom => ?_⟩
  · rw [same0 x (by omega) (by omega)]
    exact flags.x x left right
  · rcases lt_or_ge y part.ymid with early | late
    · rw [same1 y (by omega) early]
      exact flags.y y top (by omega)
    · rw [decide_eq_true (by omega)]
      refine flagged_of_not_mem _ comparison.context.yvec.value late bottom ?_
      rw [← nothing]
      exact List.not_mem_nil

/-- The repeated window is matched with the first of the two in the other sequence. -/
theorem Stutters.front (call : Call comparison 11 528 depth ⟨5, 6, 259, 265⟩ true before after) :
    after.flag0 comparison 5 = false ∧
    ∀ y, 259 ≤ y → y < 265 → after.flag1 comparison y = decide (y ≠ 264) := by
  obtain ⟨flags0, flags1⟩ := @Stutters.flags_of_common _ _ _ _ stutters _ _ _ _ call [4] (by decide)
    (by rw [stutteringNew_stretch (by decide) (by decide)]; decide)
    (fun keeps sublist _ long => sublist.eq_of_length_le long)
    (fun x other left right left' right' _ _ => by omega)
    (fun y other top bottom top' bottom' member isCode => by
      have := stutteringNew_at (by omega : 2 ≤ y) (by omega)
      have := stutteringNew_at (by omega : 2 ≤ other) (by omega)
      rw [List.mem_singleton] at member
      omega)
  refine ⟨flags0 5 (by decide) (by decide), fun y top bottom => ?_⟩
  have := stutteringNew_at (by omega : 2 ≤ y) (by omega)
  rw [flags1 y top bottom, decide_eq_decide, List.mem_singleton]
  omega

theorem Stutters.back (call : Call comparison 11 528 depth ⟨6, 8, 265, 271⟩ true before after) :
    (∀ x, 6 ≤ x → x < 8 → after.flag0 comparison x = false) ∧
    ∀ y, 265 ≤ y → y < 271 → after.flag1 comparison y = decide (¬ (y = 266 ∨ y = 267)) := by
  obtain ⟨flags0, flags1⟩ := @Stutters.flags_of_common _ _ _ _ stutters _ _ _ _ call [5, 6]
    (by decide) (by
      rw [range_append (by decide : (265 : Int) ≤ 268) (by decide), List.map_append,
        stutteringNew_stretch (by decide) (by decide)]
      exact List.Sublist.trans (by decide) (List.sublist_append_left _ _))
    (fun keeps sublist _ long => sublist.eq_of_length_le long)
    (fun x other left right left' right' _ isCode => by
      have := stutteringOld_at (by omega : 2 ≤ x) right
      have := stutteringOld_at (by omega : 2 ≤ other) right'
      omega)
    (fun y other top bottom top' bottom' member isCode => by
      have := stutteringNew_at (by omega : 2 ≤ y) (by omega)
      have := stutteringNew_at (by omega : 2 ≤ other) (by omega)
      rw [List.mem_cons, List.mem_singleton] at member
      omega)
  refine ⟨fun x left right => ?_, fun y top bottom => ?_⟩
  · have := stutteringOld_at (by omega : 2 ≤ x) right
    rw [flags0 x left right, decide_eq_false_iff_not, List.mem_cons, List.mem_singleton]
    omega
  · have := stutteringNew_at (by omega : 2 ≤ y) (by omega)
    rw [flags1 y top bottom, decide_eq_decide, List.mem_cons, List.mem_singleton]
    omega

/-- Three windows of the tail are left when the searches meet in front of it. -/
theorem Stutters.shortTail
    (call : Call comparison 11 528 depth ⟨5, 8, 259, 268 + (3 : Nat)⟩ findMinimal before after) :
    HighFlags comparison after (3 : Nat) := by
  obtain ⟨depth, rfl⟩ := Nat.exists_eq_succ_of_ne_zero (Nat.ne_zero_of_lt call.enough)
  obtain ⟨part, before', between, cost, midpoint, report, -, low, high⟩ :=
    call.halves stutters.sized (stutters.proper (Or.inr ⟨rfl, rfl⟩) (by decide))
  obtain ⟨⟨loMinimal, hiMinimal⟩, isCost, isY, stops, ahead, -⟩ :=
    stutters.midpoint (by decide) (by decide) midpoint report
  obtain ⟨left, right, top, bottom, -, -⟩ := midpoint.splits
  dsimp only at left right top bottom
  obtain ⟨isX, isY⟩ : part.xmid = 6 ∧ part.ymid = 265 := by
    have isY' : part.ymid = part.xmid + 259 := by omega
    obtain first | second | third | fourth : part.xmid = 5 ∨ part.xmid = 6 ∨ part.xmid = 7 ∨
        part.xmid = 8 := by omega
    · refine absurd ?_ (stops (by decide))
      rw [isY', first]
      have := @stutteringOld_at 5 (by decide) (by decide)
      have := @stutteringNew_at 264 (by decide) (by decide)
      exact ⟨by decide, by decide, by decide, by decide, by
        rw [stutters.x, stutters.y]
        show codeAt stutteringOld 5 = codeAt stutteringNew 264
        omega⟩
    · omega
    · rw [isY', third, stutteringNew_stretch (by decide) (by decide)] at ahead
      exact absurd ahead (by decide)
    · rw [isY', fourth, stutteringNew_stretch (by decide) (by decide)] at ahead
      exact absurd ahead (by decide)
  obtain ⟨same0, same1⟩ := high.flags_before stutters.sized
  dsimp only at same0 same1
  rw [loMinimal, isX, isY] at low
  rw [hiMinimal] at high
  obtain ⟨front0, front1⟩ := stutters.front low
  obtain ⟨back0, back1⟩ := stutters.back (by rw [isX, isY] at high; exact high)
  refine ⟨fun x left right => ?_, fun y top bottom => ?_⟩
  · rcases lt_or_ge x 6 with early | late
    · obtain rfl : x = 5 := by omega
      rw [same0 5 (by decide) (by omega)]
      exact front0
    · exact back0 x late right
  · rcases lt_or_ge y 265 with early | late
    · rw [same1 y (by omega) (by omega), front1 y top early, decide_eq_decide]
      omega
    · rw [back1 y late (by push_cast at bottom; omega), decide_eq_decide]
      omega

theorem Stutters.high
    (call : Call comparison 11 528 depth ⟨5, 8, 259, 268 + (257 : Nat)⟩ findMinimal before after) :
    HighFlags comparison after (257 : Nat) := by
  refine stutters.halveTail (by decide) le_rfl (fun call => ?_) call
  refine stutters.halveTail (by decide) (by decide) (fun call => ?_) call
  refine stutters.halveTail (by decide) (by decide) (fun call => ?_) call
  refine stutters.halveTail (by decide) (by decide) (fun call => ?_) call
  exact stutters.halveTail (by decide) (by decide) stutters.shortTail call

/-! The search for the whole of the two sequences gives up. -/

omit stutters in
/-- The elements that the two sequences have in common do not stand in the long runs. -/
theorem Stutters.avoids {common : List Nat} {x' y' : Int} (left : 2 ≤ x) (right : x' ≤ 8)
    (sublist : common.Sublist ((Int.range x x').map (codeAt stutteringOld)))
    (inRun : 2 ≤ y ∧ y' ≤ 257 ∨ 268 ≤ y ∧ y' ≤ 526) :
    ∀ value ∈ common, value ∉ (Int.range y y').map (codeAt stutteringNew) := by
  intro value member inNew
  obtain ⟨place, isPlace, isCode⟩ := List.mem_map.mp (sublist.subset member)
  obtain ⟨place', isPlace', isCode'⟩ := List.mem_map.mp inNew
  have bounds := Int.mem_range_iff.mp isPlace
  have bounds' := Int.mem_range_iff.mp isPlace'
  have := stutteringOld_at (by omega : 2 ≤ place) (by omega)
  have := stutteringNew_at (by omega : 2 ≤ place') (by omega)
  omega

/-- How far the top-down search can come: past the first occurrence, to the point where the first
sequence goes on differently. -/
theorem Stutters.furthest {less : Nat} (cheap : less ≤ 256)
    (path : Path (comparison.context.Same ⟨2, 8, 2, 525⟩) 2 2 less x y) (right : x ≤ 8)
    (bottom : y ≤ 525) : x + y ≤ 264 ∧ (-254 < x - y → x + y < 264) := by
  have few : ∀ x ∈ Int.range 2 9, ∀ y ∈ Int.range 257 265,
      ∀ common ∈ ((Int.range 2 x).map (codeAt stutteringOld)).sublists,
      common.Sublist ((Int.range 257 y).map (codeAt stutteringNew)) → 3 ≤ common.length →
      2 + 2 * (common.length : Int) ≤ x - 2 + (y - 257) := by decide +kernel
  obtain ⟨common, sublist, sublist', isCost⟩ := Context.exists_common path
  rw [stutters.x] at sublist
  rw [stutters.y] at sublist'
  have ordered := path.ordered
  have size := sublist.length_le
  have length := range_map_length (codeAt stutteringOld) ordered.1
  rcases le_or_gt y 257 with inside | beyond
  · have nothing : common = [] := List.eq_nil_iff_forall_not_mem.mpr fun value member =>
      Stutters.avoids le_rfl right sublist (Or.inl ⟨le_rfl, inside⟩) value member
        (sublist'.subset member)
    rw [nothing, List.length_nil] at isCost
    omega
  · rw [range_append (by decide : (2 : Int) ≤ 257) beyond.le, List.map_append] at sublist'
    have behind := sublist_of_disjoint_left sublist'
      (Stutters.avoids le_rfl right sublist (Or.inl ⟨le_rfl, le_rfl⟩))
    have size' := behind.length_le
    have length' := range_map_length (codeAt stutteringNew) beyond.le
    rcases Nat.lt_or_ge common.length 3 with short | long
    · omega
    · have := few x (Int.mem_range_iff.mpr ⟨ordered.1, by omega⟩) y
        (Int.mem_range_iff.mpr ⟨beyond.le, by omega⟩) common (List.mem_sublists.mpr sublist) behind
        long
      omega

/-- How far the bottom-up search can come: not even through the last run. -/
theorem Stutters.ahead {less : Nat} (cheap : less ≤ 256)
    (path : Path (comparison.context.Same ⟨2, 8, 2, 525⟩) x y less 8 525) (left : 2 ≤ x) :
    8 + 525 - (x + y) < 264 - (2 + 2) := by
  obtain ⟨common, sublist, sublist', isCost⟩ := Context.exists_common path
  rw [stutters.x] at sublist
  rw [stutters.y] at sublist'
  have ordered := path.ordered
  have size := sublist.length_le
  have length := range_map_length (codeAt stutteringOld) ordered.1
  rcases le_or_gt 268 y with inside | before
  · have nothing : common = [] := List.eq_nil_iff_forall_not_mem.mpr fun value member =>
      Stutters.avoids left le_rfl sublist (Or.inr ⟨inside, by decide⟩) value member
        (sublist'.subset member)
    rw [nothing, List.length_nil] at isCost
    omega
  · rw [range_append before.le (by decide : (268 : Int) ≤ 525), List.map_append] at sublist'
    have ahead := sublist_of_disjoint_right sublist'
      (Stutters.avoids left le_rfl sublist (Or.inr ⟨le_rfl, by decide⟩))
    have size' := ahead.length_le
    have length' := range_map_length (codeAt stutteringNew) before.le
    omega

theorem Stutters.part {part : Partition}
    (report : Report comparison.context ⟨2, 8, 2, 525⟩ false cost part)
    (bound : cost = 1 ∨ cost ≤ comparison.context.tooExpensive) : part = ⟨5, 259, true, false⟩ := by
  rw [stutters.tooExpensive] at bound
  cases report with
  | guessed _ heuristic =>
    rw [stutters.heuristic] at heuristic
    contradiction
  | met second _ isHalf lo hi _ =>
    have := (lo.trans hi).drift
    dsimp only at this
    omega
  | gaveUp search reach back _ expensive searching answer =>
    rw [stutters.tooExpensive] at expensive
    obtain rfl : cost = 256 := by omega
    have same : ∀ x y, 2 ≤ x → x < 8 → 2 ≤ y → y < 525 →
        codeAt stutteringOld x = codeAt stutteringNew y →
        comparison.context.Same ⟨2, 8, 2, 525⟩ x y := fun x y left right top bottom isCode =>
      ⟨left, right, top, bottom, by rw [stutters.x, stutters.y]; exact isCode⟩
    have codes0 := @stutteringNew_at 257 (by decide) (by decide)
    have codes1 := @stutteringNew_at 258 (by decide) (by decide)
    have reaches : Path (comparison.context.Same ⟨2, 8, 2, 525⟩) 2 2 256 5 259 :=
      (((@Path.downs _ 2 2 255).diagonal (same 2 257 (by decide) (by decide) (by decide)
        (by decide) (by show 2 = _; omega))).diagonal (same 3 258 (by decide) (by decide)
        (by decide) (by decide) (by show 3 = _; omega))).right
    have found := searching.giveUp_forward stutters.wholeProper (by decide) reaches (by decide)
      (by decide) (fun _ _ _ => stutters.furthest)
      (fun less x y cheap path left _ => stutters.ahead cheap path left)
    exact Option.some.inj (answer.symm.trans found)

/-- The flags of both sequences. -/
theorem Stutters.flags (call : Call comparison 11 528 depth ⟨0, 11, 0, 528⟩ false before after) :
    (∀ x, 0 ≤ x → x < 11 → after.flag0 comparison x = decide (x = 4)) ∧
    ∀ y, 0 ≤ y → y < 528 → after.flag1 comparison y =
      decide (2 ≤ y ∧ y < 257 ∨ 259 ≤ y ∧ y < 264 ∨ y = 265 ∨ 268 ≤ y ∧ y < 525) := by
  have sized := stutters.sized
  have same : ∀ {box : Box} {x y : Int}, comparison.context.Same box x y →
      codeAt stutteringOld x = codeAt stutteringNew y := fun same => by
    rw [← stutters.x, ← stutters.y]
    exact same.2.2.2.2
  have down : slideDown comparison.context 11 528 0 0 = some 2 := by
    obtain ⟨first, slides, climbs⟩ := @slideDown_climbs _ ⟨0, 11, 0, 528⟩ sized.covers 0 0 le_rfl
      le_rfl
    have notLess : ¬ first < 2 := fun less => climbs.stops (by
      have nonneg := climbs.le
      obtain rfl | rfl : first = 0 ∨ first = 1 := by omega
      all_goals exact ⟨by decide, by decide, by decide, by decide, by
        rw [stutters.x, stutters.y]; decide⟩)
    have notMore : ¬ 2 < first := fun more => by
      have := same (climbs.equal 2 (by decide) more)
      have := @stutteringOld_at 2 (by decide) (by decide)
      have := @stutteringNew_at (2 - 0) (by decide) (by decide)
      omega
    rw [slides, (by omega : first = 2)]
  have up : slideUp comparison.context 2 2 (-517) 11 = some 8 := by
    obtain ⟨last, slides, climbs⟩ := @slideUp_climbs comparison.context ⟨2, 11, 2, 528⟩
      ⟨fun x above below => sized.covers.x x (by dsimp only at above ⊢; omega) below,
        fun y above below => sized.covers.y y (by dsimp only at above ⊢; omega) below⟩
      (-517) 11 le_rfl (by decide)
    have notMore : ¬ 8 < last := fun more => climbs.stops (by
      have least := climbs.le
      obtain rfl | rfl | rfl : last = 9 ∨ last = 10 ∨ last = 11 := by omega
      · exact ⟨by decide, by decide, by decide, by decide, by
          rw [stutters.x, stutters.y]; exact stutteringNew_end.1.symm⟩
      · exact ⟨by decide, by decide, by decide, by decide, by
          rw [stutters.x, stutters.y]; exact stutteringNew_end.2.1.symm⟩
      · exact ⟨by decide, by decide, by decide, by decide, by
          rw [stutters.x, stutters.y]; exact stutteringNew_end.2.2.symm⟩)
    have notLess : ¬ last < 8 := fun less => by
      have := same (climbs.equal 7 (by omega) (by decide))
      have := @stutteringOld_at 7 (by decide) (by decide)
      have := @stutteringNew_at (7 - (-517)) (by decide) (by decide)
      omega
    rw [slides, (by omega : last = 8)]
  obtain ⟨depth, rfl⟩ := Nat.exists_eq_succ_of_ne_zero (Nat.ne_zero_of_lt call.enough)
  have answer := call.answer
  rw [Nat.succ_eq_add_one, @compareseq_trims ⟨0, 11, 0, 528⟩ _ _ _ down up
    stutters.wholeProper] at answer
  have inner : Call comparison 11 528 (depth + 1) ⟨2, 8, 2, 525⟩ false before after :=
    ⟨by constructor <;> decide, call.fits,
      call.fresh.narrow (by decide) (by decide) (by decide) (by decide), by
        have := call.enough
        unfold Box.size at *
        dsimp only at *
        omega, answer⟩
  obtain ⟨part, before', between, cost, midpoint, report, cheap, low, high⟩ :=
    inner.halves sized stutters.wholeProper
  obtain rfl := stutters.part report (cheap rfl)
  dsimp only at low high
  obtain ⟨low0, low1⟩ := stutters.low low
  obtain ⟨high0, high1⟩ := stutters.high high
  obtain ⟨same0, same1⟩ := high.flags_before sized
  dsimp only at same0 same1
  -- Outside the trimmed portion no flag was set.
  have compared := inner.compared sized
  refine ⟨fun x left right => ?_, fun y top bottom => ?_⟩
  · by_cases inside : 2 ≤ x ∧ x < 8
    · rcases lt_or_ge x 5 with early | late
      · rw [same0 x left early]
        exact low0 x inside.1 early
      · rw [high0 x late inside.2, decide_eq_false (by omega)]
    · have untouched : after.flag0 comparison x = before.flag0 comparison x :=
        compared.framed0.flag_eq sized.injective0 (by decide) (by decide) left right
          (by dsimp only; omega)
      rw [untouched, call.fresh.x x left right, decide_eq_false (by omega)]
  · by_cases inside : 2 ≤ y ∧ y < 525
    · rcases lt_or_ge y 259 with early | late
      · rw [same1 y top early, low1 y inside.1 early, decide_eq_decide]
        omega
      · rw [high1 y late (by push_cast; omega), decide_eq_decide]
        omega
    · have untouched : after.flag1 comparison y = before.flag1 comparison y :=
        compared.framed1.flag_eq sized.injective1 (by decide) (by decide) top bottom
          (by dsimp only; omega)
      rw [untouched, call.fresh.y y top bottom, decide_eq_false (by omega)]

omit stutters in
/-- In the script for the two sequences, an element is deleted and the same element is inserted in
its place. -/
theorem diff2Files_stuttering : ∃ splits,
    diff2Files false false 10 stutteringOld stutteringNew =
      some ⟨[⟨2, 2, 0, 260⟩, ⟨5, 265, 1, 1⟩, ⟨9, 269, 0, 257⟩], splits⟩ := by
  obtain ⟨discards0, discards1, file0, file1, discarded, isDiscards0, isDiscards1, squeezed0,
    squeezed1⟩ := @discardConfusingLines_total false 10 stutteringOld stutteringNew (by decide)
      (by decide +kernel)
  have all0 : ∀ place, 0 ≤ place → place < (stutteringOld.length : Int) →
      stays false discards0 place = true :=
    fun place => isDiscards0.stays_of_subset (by decide +kernel)
  have all1 : ∀ place, 0 ≤ place → place < (stutteringNew.length : Int) →
      stays false discards1 place = true :=
    fun place => isDiscards1.stays_of_subset (by decide +kernel)
  have addressable : Addressable stutteringOld stutteringNew := by decide +kernel
  have whole0 := (squeezed0.whole all0).2.1
  have whole1 := (squeezed1.whole all1).2.1
  have length1 : stutteringNew.length = 528 := by decide +kernel
  have sized := comparisonOf_sized false addressable squeezed0 squeezed1
  have fits := progressOf_fits false squeezed0 squeezed1
  have fresh := progressOf_fresh false squeezed0 squeezed1
  obtain ⟨progress, compared, -⟩ := compareFiles_total false addressable squeezed0 squeezed1
  have isBox : wholeBox file0 file1 = ⟨0, 11, 0, 528⟩ := by
    rw [wholeBox, whole0, whole1, length1]
    rfl
  rw [whole0, whole1, length1] at sized fits
  rw [isBox] at fresh
  have stutters : Stutters (comparisonOf false file0 file1) := by
    refine ⟨sized, ?_, ?_, rfl, ?_⟩
    · rw [comparisonOf, whole0]
      rfl
    · rw [comparisonOf, whole1]
      rfl
    · rw [comparisonOf, whole0, whole1, length1]
      show ((tooExpensiveFor (11 + 528 + 3) : Nat) : Int) = 256
      decide +kernel
  have answer : compareseq (comparisonOf false file0 file1) (11 + 528 + 1) ⟨0, 11, 0, 528⟩ false
      (progressOf file0 file1) = some progress := by
    rw [← isBox, ← length1, ← show stutteringOld.length = 11 from rfl, ← whole0, ← whole1]
    exact compared
  have call : Call (comparisonOf false file0 file1) 11 528 (11 + 528 + 1) ⟨0, 11, 0, 528⟩ false
      (progressOf file0 file1) progress :=
    ⟨by constructor <;> decide, fits, fresh, by decide,
      answer⟩
  obtain ⟨flags0, flags1⟩ := stutters.flags call
  have framed := call.compared sized
  have changed0 := @Framed.eq_mk _ _ _ _ squeezed0 all0 progress.changed0 framed.framed0 _ flags0
    fun place outside => decide_eq_false fun inside => outside (by rw [inside]; decide)
  have changed1 := @Framed.eq_mk _ _ _ _ squeezed1 all1 progress.changed1
    (by rw [length1]; exact framed.framed1) _ (by rw [length1]; exact flags1)
    fun place outside => decide_eq_false fun inside => outside (by rw [length1]; push_cast; omega)
  rw [length1] at changed1
  -- The rest of the engine is run on these flags.
  have finish : (do
      let changed0 ← shiftBoundaries stutteringOld ⟨-1, 11, fun x => decide (x = 4)⟩
        ⟨-1, 528, fun y => decide (2 ≤ y ∧ y < 257 ∨ 259 ≤ y ∧ y < 264 ∨ y = 265 ∨
          268 ≤ y ∧ y < 525)⟩
      let changed1 ← shiftBoundaries stutteringNew
        ⟨-1, 528, fun y => decide (2 ≤ y ∧ y < 257 ∨ 259 ≤ y ∧ y < 264 ∨ y = 265 ∨
          268 ≤ y ∧ y < 525)⟩ changed0
      buildScript changed0 changed1 11 528) =
      some [⟨2, 2, 0, 260⟩, ⟨5, 265, 1, 1⟩, ⟨9, 269, 0, 257⟩] := by decide +kernel
  obtain ⟨shifted0, isShifted0, finish⟩ := Option.bind_eq_some_iff.mp finish
  obtain ⟨shifted1, isShifted1, built⟩ := Option.bind_eq_some_iff.mp finish
  refine ⟨progress.splits, ?_⟩
  unfold diff2Files
  simp only [discarded, compared, changed0, changed1, Option.bind_eq_bind, Option.bind_some]
  rw [show ((stutteringOld.length : Nat) : Int) = 11 from rfl,
    show ((528 : Nat) : Int) = 528 from rfl, isShifted0]
  simp only [Option.bind_some, isShifted1, length1, show stutteringOld.length = 11 from rfl, built]
  rfl

end Stuttering

end Dwdiff.Diff
