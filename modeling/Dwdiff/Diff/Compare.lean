/-
This file proves what compareseq does to the flags of the two files: it always
answers, it flags only elements of the portion it was given, the elements that
stay without a flag are the same in both files, and unless a heuristic was used
no alignment of the two portions keeps more elements.
-/

import Dwdiff.Library.Selection
import Dwdiff.Diff.Midpoint

namespace Dwdiff.Diff

open EditGraph Selection

variable {context : Context} {diagonals : Diagonals}

/-- The flag of a compared element of the first file. -/
def Progress.flag0 (progress : Progress) (comparison : Comparison) (x : Int) : Bool :=
  progress.changed0.value (comparison.realindexes0.value x)

def Progress.flag1 (progress : Progress) (comparison : Comparison) (y : Int) : Bool :=
  progress.changed1.value (comparison.realindexes1.value y)

/-- The vectors of a comparison of `count0` with `count1` elements. -/
structure Comparison.Sized (comparison : Comparison) (count0 count1 : Int) : Prop where
  covers : comparison.context.Covers ⟨0, count0, 0, count1⟩
  inside0 : ∀ x, 0 ≤ x → x < count0 → comparison.realindexes0.Inside x
  inside1 : ∀ y, 0 ≤ y → y < count1 → comparison.realindexes1.Inside y
  injective0 : ∀ x x', 0 ≤ x → x < count0 → 0 ≤ x' → x' < count0 →
    comparison.realindexes0.value x = comparison.realindexes0.value x' → x = x'
  injective1 : ∀ y y', 0 ≤ y → y < count1 → 0 ≤ y' → y' < count1 →
    comparison.realindexes1.value y = comparison.realindexes1.value y' → y = y'
  most : count0 + count1 < offsetMax

/-- The memory that compareseq writes reaches over all compared elements. -/
structure Progress.Fits (progress : Progress) (comparison : Comparison) (count0 count1 : Int) :
    Prop where
  target0 : ∀ x, 0 ≤ x → x < count0 →
    progress.changed0.Inside (comparison.realindexes0.value x)
  target1 : ∀ y, 0 ≤ y → y < count1 →
    progress.changed1.Inside (comparison.realindexes1.value y)
  roomy : progress.diagonals.Roomy ⟨0, count0, 0, count1⟩

/-- The same cells, apart from the ones that belong to places in a range. -/
structure Framed (realindexes : Cells Int) (first last : Int) (before after : Cells Bool) :
    Prop where
  lower : after.lower = before.lower
  upper : after.upper = before.upper
  value : ∀ place, (∀ x, first ≤ x → x < last → realindexes.value x ≠ place) →
    after.value place = before.value place

/-- A partition that is known to lie on a shortest edit script. -/
def Partition.Minimal (part : Partition) : Prop := part.loMinimal = true ∧ part.hiMinimal = true

/-- A portion that lies in the compared vectors. -/
structure Box.InRange (box : Box) (count0 count1 : Int) : Prop where
  xoff_nonneg : 0 ≤ box.xoff
  wide : box.xoff ≤ box.xlim
  xlim_le : box.xlim ≤ count0
  yoff_nonneg : 0 ≤ box.yoff
  tall : box.yoff ≤ box.ylim
  ylim_le : box.ylim ≤ count1

/-- What one call of compareseq does. -/
structure Compared (comparison : Comparison) (box : Box) (findMinimal : Bool)
    (before after : Progress) : Prop where
  framed0 : Framed comparison.realindexes0 box.xoff box.xlim before.changed0 after.changed0
  framed1 : Framed comparison.realindexes1 box.yoff box.ylim before.changed1 after.changed1
  bounds : after.diagonals.SameBounds before.diagonals
  aligned : kept (after.flag0 comparison) comparison.context.xvec.value box.xoff box.xlim =
    kept (after.flag1 comparison) comparison.context.yvec.value box.yoff box.ylim
  history : ∃ splits, after.splits = splits ++ before.splits ∧
    (findMinimal = true → ∀ part ∈ splits, part.Minimal) ∧
    ((∀ part ∈ splits, part.Minimal) → ∀ whole, comparison.context.Across box whole →
      box.xlim - box.xoff + (box.ylim - box.yoff) ≤ whole + 2 * ((kept (after.flag0 comparison)
        comparison.context.xvec.value box.xoff box.xlim).length : Int))

namespace Framed

variable {realindexes : Cells Int} {first last : Int} {before after : Cells Bool}

theorem refl : Framed realindexes first last before before := ⟨rfl, rfl, fun _ _ => rfl⟩

theorem trans {first' last' first'' last'' : Int} {between : Cells Bool}
    (one : Framed realindexes first' last' before between)
    (two : Framed realindexes first'' last'' between after)
    (low : first ≤ first') (high : last' ≤ last) (low' : first ≤ first'')
    (high' : last'' ≤ last) : Framed realindexes first last before after where
  lower := two.lower.trans one.lower
  upper := two.upper.trans one.upper
  value := fun place outside => by
    rw [two.value place fun x above below => outside x (by omega) (by omega),
      one.value place fun x above below => outside x (by omega) (by omega)]

theorem inside (framed : Framed realindexes first last before after) {place : Int}
    (within : before.Inside place) : after.Inside place :=
  ⟨framed.lower ▸ within.1, framed.upper ▸ within.2⟩

/-- The places of the range are the only ones whose flags may differ. -/
theorem flag_eq {count x : Int} (framed : Framed realindexes first last before after)
    (injective : ∀ x x', 0 ≤ x → x < count → 0 ≤ x' → x' < count →
      realindexes.value x = realindexes.value x' → x = x')
    (low : 0 ≤ first) (high : last ≤ count) (nonneg : 0 ≤ x) (below : x < count)
    (outside : x < first ∨ last ≤ x) :
    after.value (realindexes.value x) = before.value (realindexes.value x) :=
  framed.value _ fun x' above below' same => by
    have := injective x' x (by omega) (by omega) nonneg below same
    omega

end Framed

/-! ### Flagging a range -/

/-- Every place of the range is flagged, and nothing else. -/
theorem note_total {realindexes : Cells Int} {changed : Cells Bool} (first last : Int)
    (inside : ∀ x, first ≤ x → x < last → realindexes.Inside x)
    (target : ∀ x, first ≤ x → x < last → changed.Inside (realindexes.value x)) :
    ∃ changed', note realindexes first last changed = some changed' ∧
      Framed realindexes first last changed changed' ∧
      ∀ x, first ≤ x → x < last → changed'.value (realindexes.value x) = true := by
  have step : ∀ (index : Nat) (current : Cells Bool), 0 ≤ index →
      index < 0 + (last - first).toNat →
      (Framed realindexes first last changed current ∧
        ∀ x, first ≤ x → x < first + index → current.value (realindexes.value x) = true) →
      ∃ next, noteOne realindexes (first + index) current = some next ∧
        Framed realindexes first last changed next ∧
        ∀ x, first ≤ x → x < first + (index + 1 : Nat) →
          next.value (realindexes.value x) = true := by
    rintro index current - below ⟨framed, flags⟩
    have within := inside (first + index) (by omega) (by omega)
    have target' := framed.inside (target (first + index) (by omega) (by omega))
    refine ⟨current.put (realindexes.value (first + index)) true, ?_, ⟨framed.lower,
      framed.upper, fun place outside => ?_⟩, fun x above below' => ?_⟩
    · rw [noteOne, Cells.get_inside within]
      exact Cells.set_inside target' true
    · rw [Cells.value_put, Function.update_of_ne
        (Ne.symm (outside (first + index) (by omega) (by omega)))]
      exact framed.value place outside
    · rw [Cells.value_put]
      by_cases same : realindexes.value x = realindexes.value (first + index)
      · rw [same, Function.update_self]
      · rw [Function.update_of_ne same]
        refine flags x above (lt_of_le_of_ne (by omega) fun isLast => same ?_)
        rw [isLast]
  obtain ⟨changed', answer, framed, flags⟩ := Loop.upTo_total
    (fun index current => Framed realindexes first last changed current ∧
      ∀ x, first ≤ x → x < first + index → current.value (realindexes.value x) = true)
    (last - first).toNat 0 changed step ⟨.refl, fun x above below => by omega⟩
  exact ⟨changed', answer, framed, fun x above below => flags x above (by omega)⟩

/-! ### The cases of compareseq -/

section Cases

variable {comparison : Comparison} {count0 count1 : Int} {box : Box} {findMinimal : Bool}
  {before after : Progress}

/-- No element of the portion has a flag yet. -/
structure Progress.Fresh (progress : Progress) (comparison : Comparison) (box : Box) : Prop where
  x : ∀ x, box.xoff ≤ x → x < box.xlim → progress.flag0 comparison x = false
  y : ∀ y, box.yoff ≤ y → y < box.ylim → progress.flag1 comparison y = false

theorem Context.Same.widen {inner : Box} {x y : Int} (same : context.Same inner x y)
    (left : box.xoff ≤ inner.xoff) (right : inner.xlim ≤ box.xlim) (top : box.yoff ≤ inner.yoff)
    (bottom : inner.ylim ≤ box.ylim) : context.Same box x y :=
  ⟨by have := same.1; omega, by have := same.2.1; omega, by have := same.2.2.1; omega,
    by have := same.2.2.2.1; omega, same.2.2.2.2⟩

/-- A path of the box that lies in a smaller box is a path of the smaller box. -/
theorem path_narrow (inner : Box) {cost : Nat}
    (path : Path (context.Same box) inner.xoff inner.yoff cost inner.xlim inner.ylim) :
    context.Across inner cost :=
  path.within (fun _ _ left right top bottom same => ⟨left, right, top, bottom, same.2.2.2.2⟩)
    le_rfl le_rfl

theorem Box.xoff_sub_fmid (box : Box) : box.xoff - box.fmid = box.yoff := sub_sub_cancel _ _

theorem Box.xlim_sub_bmid (box : Box) : box.xlim - box.bmid = box.ylim := sub_sub_cancel _ _

theorem climbs_inside (wide : box.xoff ≤ box.xlim) (tall : box.yoff ≤ box.ylim) {first : Int}
    (down : Climbs (context.Same box) box.fmid box.xoff first) :
    first ≤ box.xlim ∧ first - box.fmid ≤ box.ylim := by
  have middle := box.xoff_sub_fmid
  rcases Int.lt_or_eq_of_le down.le with further | rfl
  · have same := down.equal (first - 1) (by omega) (by omega)
    have := same.2.1
    have := same.2.2.2.1
    omega
  · omega

theorem backClimbs_inside (wide : box.xoff ≤ box.xlim) (tall : box.yoff ≤ box.ylim) {last : Int}
    (up : BackClimbs (context.Same box) box.bmid box.xlim last) :
    box.xoff ≤ last ∧ box.yoff ≤ last - box.bmid := by
  have middle := box.xlim_sub_bmid
  rcases Int.lt_or_eq_of_le up.le with further | rfl
  · have same := up.equal last le_rfl further
    exact ⟨same.1, same.2.2.1⟩
  · omega

theorem Compared.fits (compared : Compared comparison box findMinimal before after)
    (fits : before.Fits comparison count0 count1) : after.Fits comparison count0 count1 where
  target0 := fun x nonneg below => compared.framed0.inside (fits.target0 x nonneg below)
  target1 := fun y nonneg below => compared.framed1.inside (fits.target1 y nonneg below)
  roomy := compared.bounds.roomy fits.roomy

/-- Moving the ends of a portion inwards. -/
theorem Progress.Fresh.narrow {inner : Box} (fresh : before.Fresh comparison box)
    (left : box.xoff ≤ inner.xoff) (right : inner.xlim ≤ box.xlim) (top : box.yoff ≤ inner.yoff)
    (bottom : inner.ylim ≤ box.ylim) : before.Fresh comparison inner where
  x := fun x above below => fresh.x x (by omega) (by omega)
  y := fun y above below => fresh.y y (by omega) (by omega)

/-- The vectors of diagonals may be used again. -/
theorem Progress.Fits.handOver (fits : before.Fits comparison count0 count1)
    (bounds : diagonals.SameBounds before.diagonals) (splits : List Partition) :
    Progress.Fits { before with diagonals, splits } comparison count0 count1 :=
  ⟨fits.target0, fits.target1, bounds.roomy fits.roomy⟩

theorem Diagonals.Roomy.narrow (roomy : diagonals.Roomy ⟨0, count0, 0, count1⟩)
    (inRange : box.InRange count0 count1) : diagonals.Roomy box := by
  obtain ⟨xoff, _, xlim, yoff, _, ylim⟩ := inRange
  unfold Diagonals.Roomy Diff.Roomy Box.dmin Box.dmax at *
  dsimp only at roomy
  omega

variable (sized : comparison.Sized count0 count1) (inRange : box.InRange count0 count1)

include sized inRange

/-- Only insertions are left. -/
theorem compared_insert (fits : before.Fits comparison count0 count1)
    (empty : box.xoff = box.xlim) :
    ∃ changed1, note comparison.realindexes1 box.yoff box.ylim before.changed1 = some changed1 ∧
      Compared comparison box findMinimal before { before with changed1 } := by
  have nonneg := inRange.yoff_nonneg
  have below := inRange.ylim_le
  obtain ⟨changed1, answer, framed, flags⟩ := note_total box.yoff box.ylim
    (fun y above below' => sized.inside1 y (by omega) (by omega))
    (fun y above below' => fits.target1 y (by omega) (by omega))
  refine ⟨changed1, answer, .refl, framed, ⟨rfl, rfl, rfl, rfl⟩, ?_, [], rfl,
    fun _ part member => by contradiction, fun _ whole across => ?_⟩
  · rw [kept_of_le _ _ empty.ge]
    exact (kept_flagged _ _ flags).symm
  · have := across.drift
    rw [kept_of_le _ _ empty.ge]
    simp only [List.length_nil, Nat.cast_zero]
    omega

/-- Only deletions are left. -/
theorem compared_delete (fits : before.Fits comparison count0 count1)
    (empty : box.yoff = box.ylim) :
    ∃ changed0, note comparison.realindexes0 box.xoff box.xlim before.changed0 = some changed0 ∧
      Compared comparison box findMinimal before { before with changed0 } := by
  have nonneg := inRange.xoff_nonneg
  have below := inRange.xlim_le
  obtain ⟨changed0, answer, framed, flags⟩ := note_total box.xoff box.xlim
    (fun x above below' => sized.inside0 x (by omega) (by omega))
    (fun x above below' => fits.target0 x (by omega) (by omega))
  have nothing : kept (Progress.flag0 { before with changed0 } comparison)
      comparison.context.xvec.value box.xoff box.xlim = [] := kept_flagged _ _ flags
  refine ⟨changed0, answer, framed, .refl, ⟨rfl, rfl, rfl, rfl⟩, ?_, [], rfl,
    fun _ part member => by contradiction, fun _ whole across => ?_⟩
  · rw [nothing, kept_of_le _ _ empty.ge]
  · have := across.drift
    rw [nothing]
    simp only [List.length_nil, Nat.cast_zero]
    omega

/-- The two halves at a midpoint, one after the other. -/
theorem compared_halves {part : Partition} {between : Progress}
    (midpoint : Midpoint comparison.context box findMinimal part)
    (bounds : diagonals.SameBounds before.diagonals)
    (low : Compared comparison ⟨box.xoff, part.xmid, box.yoff, part.ymid⟩ part.loMinimal
      { before with diagonals, splits := part :: before.splits } between)
    (high : Compared comparison ⟨part.xmid, box.xlim, part.ymid, box.ylim⟩ part.hiMinimal
      between after) : Compared comparison box findMinimal before after := by
  have splits := midpoint.splits
  have left := splits.left
  have right := splits.right
  have top := splits.top
  have bottom := splits.bottom
  have nonneg0 := inRange.xoff_nonneg
  have below0 := inRange.xlim_le
  have nonneg1 := inRange.yoff_nonneg
  have below1 := inRange.ylim_le
  -- The second call does not touch the flags of the first half.
  have lowX : kept (after.flag0 comparison) comparison.context.xvec.value box.xoff part.xmid =
      kept (between.flag0 comparison) comparison.context.xvec.value box.xoff part.xmid :=
    kept_congr (fun x above below => high.framed0.flag_eq sized.injective0 (by dsimp only; omega)
      below0 (by omega) (by omega) (Or.inl below)) fun _ _ _ _ => rfl
  have lowY : kept (after.flag1 comparison) comparison.context.yvec.value box.yoff part.ymid =
      kept (between.flag1 comparison) comparison.context.yvec.value box.yoff part.ymid :=
    kept_congr (fun y above below => high.framed1.flag_eq sized.injective1 (by dsimp only; omega)
      below1 (by omega) (by omega) (Or.inl below)) fun _ _ _ _ => rfl
  have lowAligned := low.aligned
  have highAligned := high.aligned
  dsimp only at lowAligned highAligned
  refine ⟨low.framed0.trans high.framed0 le_rfl right left le_rfl,
    low.framed1.trans high.framed1 le_rfl bottom top le_rfl, ?_, ?_, ?_⟩
  · exact ⟨high.bounds.fdLower.trans (low.bounds.fdLower.trans bounds.fdLower),
      high.bounds.fdUpper.trans (low.bounds.fdUpper.trans bounds.fdUpper),
      high.bounds.bdLower.trans (low.bounds.bdLower.trans bounds.bdLower),
      high.bounds.bdUpper.trans (low.bounds.bdUpper.trans bounds.bdUpper)⟩
  · rw [kept_append _ _ left right, kept_append _ _ top bottom, lowX, lowY, lowAligned,
      highAligned]
  · obtain ⟨lowSplits, isLow, lowMinimal, lowShort⟩ := low.history
    obtain ⟨highSplits, isHigh, highMinimal, highShort⟩ := high.history
    refine ⟨highSplits ++ lowSplits ++ [part], by rw [isHigh, isLow]; simp,
      fun minimal other member => ?_, fun minimal whole across => ?_⟩
    · obtain ⟨lo, hi⟩ := midpoint.minimal minimal
      rcases List.mem_append.mp member with member | member
      · rcases List.mem_append.mp member with member | member
        · exact highMinimal hi other member
        · exact lowMinimal lo other member
      · rw [List.mem_singleton.mp member]
        exact ⟨lo, hi⟩
    · obtain ⟨lo, hi⟩ := minimal part (by simp)
      obtain ⟨first, second, path, path', least⟩ := midpoint.shortest lo hi
      have lowBound := lowShort (fun other member => minimal other (by simp [member])) first
        (path_narrow ⟨box.xoff, part.xmid, box.yoff, part.ymid⟩ path)
      have highBound := highShort (fun other member => minimal other (by simp [member])) second
        (path_narrow ⟨part.xmid, box.xlim, part.ymid, box.ylim⟩ path')
      have total := least whole across
      dsimp only at lowBound highBound
      rw [kept_append _ _ left right, lowX, List.length_append]
      push_cast
      omega

/-- Equal elements at both ends are matched, and take nothing away from a shortest script. -/
theorem compared_widen (fresh : before.Fresh comparison box) {first last : Int}
    (down : Climbs (comparison.context.Same box) box.fmid box.xoff first)
    (up : BackClimbs (comparison.context.Same
      ⟨first, box.xlim, first - box.fmid, box.ylim⟩) box.bmid box.xlim last)
    (bottom : first - box.fmid ≤ box.ylim) (left : first ≤ last)
    (top : first - box.fmid ≤ last - box.bmid)
    (inner : Compared comparison ⟨first, last, first - box.fmid, last - box.bmid⟩ findMinimal
      before after) : Compared comparison box findMinimal before after := by
  have nonneg0 := inRange.xoff_nonneg
  have below0 := inRange.xlim_le
  have nonneg1 := inRange.yoff_nonneg
  have below1 := inRange.ylim_le
  have downLe := down.le
  have upLe := up.le
  have middle := box.xoff_sub_fmid
  have middle' := box.xlim_sub_bmid
  have flags0 : ∀ x, box.xoff ≤ x → x < box.xlim → (x < first ∨ last ≤ x) →
      after.flag0 comparison x = false := fun x above below outside => by
    rw [← fresh.x x above below]
    exact inner.framed0.flag_eq sized.injective0 (by dsimp only; omega) (by dsimp only; omega)
      (by omega) (by omega) outside
  have flags1 : ∀ y, box.yoff ≤ y → y < box.ylim →
      (y < first - box.fmid ∨ last - box.bmid ≤ y) → after.flag1 comparison y = false :=
    fun y above below outside => by
      rw [← fresh.y y above below]
      exact inner.framed1.flag_eq sized.injective1 (by dsimp only; omega) (by dsimp only; omega)
        (by omega) (by omega) outside
  have start : kept (after.flag0 comparison) comparison.context.xvec.value box.xoff first =
      kept (after.flag1 comparison) comparison.context.yvec.value box.yoff (first - box.fmid) := by
    rw [← middle]
    exact kept_shifted _ _ box.fmid
      (fun place above below => flags0 place above (by omega) (Or.inl below))
      (fun place above below => flags1 _ (by omega) (by omega) (Or.inl (by omega)))
      (fun place above below => (down.equal place above below).2.2.2.2)
  have finish : kept (after.flag0 comparison) comparison.context.xvec.value last box.xlim =
      kept (after.flag1 comparison) comparison.context.yvec.value (last - box.bmid) box.ylim := by
    rw [← middle']
    exact kept_shifted _ _ box.bmid
      (fun place above below => flags0 place (by omega) below (Or.inr above))
      (fun place above below => flags1 _ (by omega) (by omega) (Or.inr (by omega)))
      (fun place above below => (up.equal place above below).2.2.2.2)
  have splitX := kept_append_append (after.flag0 comparison) comparison.context.xvec.value downLe
    left upLe
  have splitY := kept_append_append (after.flag1 comparison) comparison.context.yvec.value
    (by omega : box.yoff ≤ first - box.fmid) top (by omega : last - box.bmid ≤ box.ylim)
  have aligned := inner.aligned
  dsimp only at aligned
  refine ⟨inner.framed0.trans .refl (by dsimp only; omega) (by dsimp only; omega) le_rfl le_rfl,
    inner.framed1.trans .refl (by dsimp only; omega) (by dsimp only; omega) le_rfl le_rfl,
    inner.bounds, by rw [splitX, splitY, start, aligned, finish], ?_⟩
  obtain ⟨splits, isSplits, minimal, short⟩ := inner.history
  refine ⟨splits, isSplits, minimal, fun all whole across => ?_⟩
  -- The path through the box is shortened at both ends.
  obtain ⟨less, fewer, path⟩ := across.shortenStart (first - box.xoff).toNat (by omega)
    (by omega)
  obtain ⟨less', fewer', path'⟩ := path.shortenEnd (box.xlim - last).toNat (by omega) (by omega)
  rw [show box.xoff + ((first - box.xoff).toNat : Int) = first by omega,
    show box.yoff + ((first - box.xoff).toNat : Int) = first - box.fmid by omega,
    show box.xlim - ((box.xlim - last).toNat : Int) = last by omega,
    show box.ylim - ((box.xlim - last).toNat : Int) = last - box.bmid by omega] at path'
  have innerBound := short all less'
    (path_narrow ⟨first, last, first - box.fmid, last - box.bmid⟩ path')
  have lengthStart := kept_unflagged_length (after.flag0 comparison)
    comparison.context.xvec.value downLe
    fun place above below => flags0 place above (by omega) (Or.inl below)
  have lengthFinish := kept_unflagged_length (after.flag0 comparison)
    comparison.context.xvec.value upLe
    fun place above below => flags0 place (by omega) below (Or.inr above)
  dsimp only at innerBound
  rw [splitX, List.length_append, List.length_append]
  push_cast
  omega

/-! ### The whole recursion -/

theorem Box.InRange.proper (wide : box.xoff < box.xlim) (tall : box.yoff < box.ylim)
    (firstDiffer : ¬ comparison.context.Same box box.xoff box.yoff)
    (lastDiffer : ¬ comparison.context.Same box (box.xlim - 1) (box.ylim - 1)) :
    box.Proper comparison.context where
  covers := ⟨fun x above below => sized.covers.x x (inRange.xoff_nonneg.trans above)
      (lt_of_lt_of_le below inRange.xlim_le),
    fun y above below => sized.covers.y y (inRange.yoff_nonneg.trans above)
      (lt_of_lt_of_le below inRange.ylim_le)⟩
  xoff_nonneg := inRange.xoff_nonneg
  yoff_nonneg := inRange.yoff_nonneg
  wide := wide
  tall := tall
  most := lt_of_le_of_lt (add_le_add inRange.xlim_le inRange.ylim_le) sized.most
  firstDiffer := firstDiffer
  lastDiffer := lastDiffer

/-- The first half leaves the flags of the second half clear. -/
theorem Compared.fresh (fresh : before.Fresh comparison box) {part : Partition}
    (splits : part.Splits box)
    (low : Compared comparison ⟨box.xoff, part.xmid, box.yoff, part.ymid⟩ findMinimal before
      after) :
    after.Fresh comparison ⟨part.xmid, box.xlim, part.ymid, box.ylim⟩ := by
  obtain ⟨left, right, top, bottom, -, -⟩ := splits
  have nonneg0 := inRange.xoff_nonneg
  have below0 := inRange.xlim_le
  have nonneg1 := inRange.yoff_nonneg
  have below1 := inRange.ylim_le
  refine ⟨fun x above below => ?_, fun y above below => ?_⟩
  · dsimp only at above below
    rw [← fresh.x x (by omega) below]
    exact low.framed0.flag_eq sized.injective0 nonneg0 (right.trans below0) (by omega) (by omega)
      (Or.inr above)
  · dsimp only at above below
    rw [← fresh.y y (by omega) below]
    exact low.framed1.flag_eq sized.injective1 nonneg1 (bottom.trans below1) (by omega) (by omega)
      (Or.inr above)

/-- The trimmed portion, once it is known how the two halves are compared. -/
theorem compared_inner {depth : Nat}
    (halves : ∀ (half : Box) (findMinimal : Bool) (progress : Progress),
      half.InRange count0 count1 → progress.Fits comparison count0 count1 →
      progress.Fresh comparison half → half.size < depth →
      ∃ progress', compareseq comparison depth half findMinimal progress = some progress' ∧
        Compared comparison half findMinimal progress progress')
    (fits : before.Fits comparison count0 count1) (fresh : before.Fresh comparison box)
    (proper : box.Proper comparison.context) (enough : box.size ≤ depth) :
    ∃ part diagonals between after,
      diag comparison.context box findMinimal before.diagonals = some (part, diagonals) ∧
      compareseq comparison depth ⟨box.xoff, part.xmid, box.yoff, part.ymid⟩ part.loMinimal
        { before with diagonals, splits := part :: before.splits } = some between ∧
      compareseq comparison depth ⟨part.xmid, box.xlim, part.ymid, box.ylim⟩ part.hiMinimal
        between = some after ∧
      Compared comparison box findMinimal before after := by
  obtain ⟨xoffNonneg, wide, xlimLe, yoffNonneg, tall, ylimLe⟩ := inRange
  have inRange : box.InRange count0 count1 := ⟨xoffNonneg, wide, xlimLe, yoffNonneg, tall, ylimLe⟩
  obtain ⟨⟨part, diagonals⟩, found, midpoint, bounds⟩ :=
    diag_total findMinimal proper (fits.roomy.narrow inRange)
  dsimp only at midpoint bounds
  obtain ⟨left, right, top, bottom, later, earlier⟩ := midpoint.splits
  have fits' := fits.handOver bounds (part :: before.splits)
  unfold Box.size at enough
  obtain ⟨between, lowAnswer, low⟩ := halves ⟨box.xoff, part.xmid, box.yoff, part.ymid⟩
    part.loMinimal _ ⟨xoffNonneg, left, right.trans xlimLe, yoffNonneg, top, bottom.trans ylimLe⟩
    fits' (⟨fun x above below => fresh.x x above (lt_of_lt_of_le below right),
      fun y above below => fresh.y y above (lt_of_lt_of_le below bottom)⟩)
    (by unfold Box.size; dsimp only at *; omega)
  have starts : ({ before with diagonals, splits := part :: before.splits } : Progress).Fresh
      comparison box := ⟨fresh.x, fresh.y⟩
  have fresh' : between.Fresh comparison ⟨part.xmid, box.xlim, part.ymid, box.ylim⟩ :=
    Compared.fresh sized inRange starts midpoint.splits low
  obtain ⟨after, highAnswer, high⟩ := halves ⟨part.xmid, box.xlim, part.ymid, box.ylim⟩
    part.hiMinimal between ⟨xoffNonneg.trans left, right, xlimLe, yoffNonneg.trans top, bottom,
      ylimLe⟩ (low.fits fits') fresh' (by unfold Box.size; dsimp only at *; omega)
  exact ⟨part, diagonals, between, after, found, lowAnswer, highAnswer,
    compared_halves sized inRange midpoint bounds low high⟩

/-- The slides at the two ends of the portion, and the corners of what they leave. -/
theorem slides_total : ∃ first last,
    slideDown comparison.context box.xlim box.ylim box.fmid box.xoff = some first ∧
    Climbs (comparison.context.Same box) box.fmid box.xoff first ∧
    slideUp comparison.context first (first - box.fmid) box.bmid box.xlim = some last ∧
    BackClimbs (comparison.context.Same ⟨first, box.xlim, first - box.fmid, box.ylim⟩) box.bmid
      box.xlim last ∧
    (first ≤ box.xlim ∧ first - box.fmid ≤ box.ylim) ∧ first ≤ last ∧
      first - box.fmid ≤ last - box.bmid := by
  obtain ⟨xoffNonneg, wide, xlimLe, yoffNonneg, tall, ylimLe⟩ := inRange
  have covers : ∀ first, box.xoff ≤ first →
      comparison.context.Covers ⟨first, box.xlim, first - box.fmid, box.ylim⟩ := fun first above =>
    ⟨fun x above' below => sized.covers.x x ((xoffNonneg.trans above).trans above')
        (lt_of_lt_of_le below xlimLe),
      fun y above' below => sized.covers.y y (by
        unfold Box.fmid at above'
        dsimp only at above' ⊢
        omega) (lt_of_lt_of_le below ylimLe)⟩
  have middle := box.xoff_sub_fmid
  have whole := covers box.xoff le_rfl
  rw [middle] at whole
  obtain ⟨first, slidDown, down⟩ := slideDown_climbs whole (d := box.fmid) (le_refl box.xoff)
    (by dsimp only; omega)
  have firstLe := climbs_inside wide tall down
  obtain ⟨last, slidUp, up⟩ := slideUp_climbs (covers first down.le) (d := box.bmid)
    (le_refl box.xlim) (by unfold Box.bmid; dsimp only; omega)
  exact ⟨first, last, slidDown, down, slidUp, up, firstLe, backClimbs_inside firstLe.1 firstLe.2 up⟩

end Cases

/-- compareseq always answers, and what it flags leaves the same elements in both files. -/
theorem compareseq_total {comparison : Comparison} {count0 count1 : Int}
    (sized : comparison.Sized count0 count1) :
    ∀ (depth : Nat) (box : Box) (findMinimal : Bool) (before : Progress),
      box.InRange count0 count1 → before.Fits comparison count0 count1 →
      before.Fresh comparison box → box.size < depth →
      ∃ after, compareseq comparison depth box findMinimal before = some after ∧
        Compared comparison box findMinimal before after
  | 0, _, _, _, _, _, _, enough => absurd enough (Nat.not_lt_zero _)
  | depth + 1, box, findMinimal, before, inRange, fits, fresh, enough => by
    obtain ⟨first, last, slidDown, down, slidUp, up, ⟨firstLe, firstLe'⟩, lastGe, lastGe'⟩ :=
      slides_total sized inRange
    obtain ⟨xoffNonneg, wide, xlimLe, yoffNonneg, tall, ylimLe⟩ := inRange
    have downLe := down.le
    have upLe := up.le
    have middle := box.xoff_sub_fmid
    have middle' := box.xlim_sub_bmid
    -- What is left between the two slides, and how its comparison carries over to the box.
    have innerRange : Box.InRange ⟨first, last, first - box.fmid, last - box.bmid⟩ count0 count1 :=
      ⟨by dsimp only; omega, lastGe, by dsimp only; omega, by dsimp only; omega, lastGe',
        by dsimp only; omega⟩
    have innerFresh : before.Fresh comparison ⟨first, last, first - box.fmid, last - box.bmid⟩ :=
      fresh.narrow downLe (by dsimp only; omega) (by dsimp only; omega) (by dsimp only; omega)
    have widen : ∀ {after}, Compared comparison ⟨first, last, first - box.fmid, last - box.bmid⟩
        findMinimal before after → Compared comparison box findMinimal before after :=
      compared_widen sized ⟨xoffNonneg, wide, xlimLe, yoffNonneg, tall, ylimLe⟩ fresh down up
        firstLe' lastGe lastGe'
    have unfolds := compareseq.eq_2 comparison box findMinimal before depth
    simp only [slidDown, slidUp, Option.bind_eq_bind, Option.bind_some] at unfolds
    rw [unfolds]
    by_cases noX : first = last
    · obtain ⟨changed1, answer, compared⟩ := compared_insert sized innerRange fits noX
      dsimp only at answer
      rw [if_pos noX, answer]
      exact ⟨_, rfl, widen compared⟩
    · rw [if_neg noX]
      by_cases noY : first - box.fmid = last - box.bmid
      · obtain ⟨changed0, answer, compared⟩ := compared_delete sized innerRange fits noY
        dsimp only at answer
        rw [if_pos noY, answer]
        exact ⟨_, rfl, widen compared⟩
      · have proper := innerRange.proper sized (lt_of_le_of_ne lastGe noX)
          (lt_of_le_of_ne lastGe' noY)
          (fun same => down.stops (same.widen downLe (by dsimp only; omega) (by dsimp only; omega)
            (by dsimp only; omega)))
          (fun same => up.stops (by
            rw [show last - 1 - box.bmid = last - box.bmid - 1 by ring]
            exact same.widen le_rfl upLe le_rfl (by dsimp only; omega)))
        obtain ⟨part, diagonals, between, after, found, low, high, compared⟩ := compared_inner
          sized innerRange (compareseq_total sized depth) fits innerFresh
          proper (by unfold Box.size at *; dsimp only; omega)
        dsimp only at low high
        rw [if_neg noY, found]
        simp only [Option.bind_some, low]
        exact ⟨after, high, widen compared⟩

/-- Where a path without an edit leads across the portion, no midpoint is looked for. -/
theorem compareseq_free {comparison : Comparison} {count0 count1 : Int}
    (sized : comparison.Sized count0 count1) {depth : Nat} {box : Box} {findMinimal : Bool}
    {before after : Progress} (inRange : box.InRange count0 count1)
    (answer : compareseq comparison depth box findMinimal before = some after)
    (free : comparison.context.Across box 0) : after.splits = before.splits := by
  cases depth with
  | zero => contradiction
  | succ depth =>
    obtain ⟨first, last, slidDown, down, slidUp, up, ⟨firstLe, firstLe'⟩, lastGe, -⟩ :=
      slides_total sized inRange
    have wide := inRange.wide
    have downLe := down.le
    have middle := box.xoff_sub_fmid
    -- The slide stops at a difference, and a path without an edit has none.
    obtain ⟨less, fewer, path⟩ := free.shortenStart (first - box.xoff).toNat (by omega) (by omega)
    rw [show box.xoff + ((first - box.xoff).toNat : Int) = first by omega,
      show box.yoff + ((first - box.xoff).toNat : Int) = first - box.fmid by omega] at path
    obtain ⟨atEnd, atEnd'⟩ := path.stays down.stops (by omega)
    have upLe := up.le
    have unfolds := compareseq.eq_2 comparison box findMinimal before depth
    simp only [slidDown, slidUp, Option.bind_eq_bind, Option.bind_some] at unfolds
    rw [unfolds, if_pos (by omega : first = last)] at answer
    obtain ⟨changed1, -, isAfter⟩ := Option.bind_eq_some_iff.mp answer
    rw [← Option.some.inj isAfter]

end Dwdiff.Diff
