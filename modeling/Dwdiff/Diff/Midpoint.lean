/-
This file proves that diag reports a proper midpoint: it lies in the box and at
neither corner, so that both halves are smaller than the whole, and when
neither half is left to a heuristic it lies on a shortest edit script.
-/

import Dwdiff.Diff.Search

namespace Dwdiff.Diff

open EditGraph

variable {cost : Nat} {search : Search} {reach back : Int → Int} {context : Context} {box : Box}

/-- The point lies in the box and at neither of its corners. -/
structure Partition.Splits (part : Partition) (box : Box) : Prop where
  left : box.xoff ≤ part.xmid
  right : part.xmid ≤ box.xlim
  top : box.yoff ≤ part.ymid
  bottom : part.ymid ≤ box.ylim
  after : box.xoff + box.yoff < part.xmid + part.ymid
  before : part.xmid + part.ymid < box.xlim + box.ylim

/-- A path through the whole box. -/
def Context.Across (context : Context) (box : Box) (whole : Nat) : Prop :=
  Path (context.Same box) box.xoff box.yoff whole box.xlim box.ylim

/-- The point lies on a path that no path through the box undercuts. -/
def Partition.Shortest (part : Partition) (context : Context) (box : Box) : Prop :=
  ∃ first second, Path (context.Same box) box.xoff box.yoff first part.xmid part.ymid ∧
    Path (context.Same box) part.xmid part.ymid second box.xlim box.ylim ∧
    ∀ whole, context.Across box whole → first + second ≤ whole

/-- What diag reports. -/
structure Midpoint (context : Context) (box : Box) (findMinimal : Bool) (part : Partition) :
    Prop where
  splits : part.Splits box
  shortest : part.loMinimal = true → part.hiMinimal = true → part.Shortest context box
  minimal : findMinimal = true → part.loMinimal = true ∧ part.hiMinimal = true

/-! ### Diagonals that made progress -/

theorem significant_total {probe : Int → Option Bool} {first last : Int} (ordered : first ≤ last)
    (probes : ∀ k, first ≤ k → k ≤ last → ∃ equal, probe k = some equal) :
    ∃ found, significant probe first last = some found := by
  suffices answers : ∃ found, significant probe first last = some found ∧ True from
    answers.imp fun _ => And.left
  refine Loop.run_total (fun k => first ≤ k ∧ k ≤ last) (fun k => (last - k).toNat) _
    (fun k within => ?_) _ first ⟨le_rfl, ordered⟩ (Nat.lt_succ_self _)
  obtain ⟨equal, probed⟩ := probes k within.1 within.2
  cases equal with
  | false => exact Or.inr ⟨false, by simp [probed], trivial⟩
  | true =>
    by_cases final : k = last
    · subst final
      exact Or.inr ⟨true, by simp [probed], trivial⟩
    · exact Or.inl ⟨k + 1, by simp [probed, final], ⟨by omega, by omega⟩,
        by dsimp only; omega⟩

section Best

variable {vector : Cells (Option Int)} {least greatest middle c : Int} {progress : Int → Int → Int}
  {inner : Int → Int → Bool} {snake : Int → Int → Option Bool}

theorem bestSnakeStep_eq {d best xmid ymid : Int} (within : least ≤ d)
    (loads : ∃ x, vector.load d = some x)
    (snakes : ∀ x y, inner x y = true → ∃ found, snake x y = some found)
    (kept : 0 < best → inner xmid ymid = true) :
    ∃ best' xmid' ymid', bestSnakeStep vector least middle c progress inner snake
        (d, best, xmid, ymid) = some (.inl (d - 2, best', xmid', ymid')) ∧
      (0 < best' → inner xmid' ymid' = true) := by
  obtain ⟨x, loads⟩ := loads
  rw [bestSnakeStep, if_pos within, loads]
  by_cases promising : progress x (d - middle) > 12 * (c + (if d - middle < 0 then -(d - middle)
      else d - middle)) ∧ progress x (d - middle) > best ∧ inner x (x - d) = true
  · obtain ⟨found, isFound⟩ := snakes x (x - d) promising.2.2
    simp only [Option.bind_eq_bind, Option.bind_some, if_pos promising, isFound, Option.map_some]
    cases found with
    | true => exact ⟨_, _, _, rfl, fun _ => promising.2.2⟩
    | false => exact ⟨_, _, _, rfl, kept⟩
  · simp only [Option.bind_eq_bind, Option.bind_some, if_neg promising]
    exact ⟨_, _, _, rfl, kept⟩

/-- The search for a diagonal with much progress answers, and a best diagonal that it found
lies in the inner part of the box. -/
theorem bestSnake_total {inside : Int → Int → Prop}
    (isInner : ∀ x y, inner x y = true ↔ inside x y)
    (loads : ∀ d, least ≤ d → d ≤ greatest → (d - greatest) % 2 = 0 →
      ∃ x, vector.load d = some x)
    (snakes : ∀ x y, inside x y → ∃ found, snake x y = some found) :
    ∃ result, bestSnake vector least greatest middle c progress inner snake = some result ∧
      (0 < result.1 → inside result.2.1 result.2.2) := by
  simp only [← isInner] at snakes ⊢
  refine Loop.run_total
    (fun state => state.1 ≤ greatest ∧ (state.1 - greatest) % 2 = 0 ∧
      (0 < state.2.1 → inner state.2.2.1 state.2.2.2 = true))
    (fun state => (state.1 - least + 1).toNat) _ ?_ _ (greatest, 0, 0, 0)
    ⟨le_rfl, by omega, fun positive => absurd positive (lt_irrefl 0)⟩
    (by unfold rounds; dsimp only; omega)
  rintro ⟨d, best, xmid, ymid⟩ ⟨below, even, kept⟩
  dsimp only at below even kept
  rcases lt_or_ge d least with finished | within
  · exact Or.inr ⟨(best, xmid, ymid), by rw [bestSnakeStep, if_neg (by omega)]; rfl, kept⟩
  · obtain ⟨best', xmid', ymid', steps, kept'⟩ :=
      bestSnakeStep_eq within (loads d within below even) snakes kept
    exact Or.inl ⟨_, steps, ⟨by dsimp only; omega, by dsimp only; omega, kept'⟩,
      by dsimp only; omega⟩

/-- The loop over the diagonals: what holds of the best point so far is kept by every round. -/
theorem extreme_rule (start : Int) (clamp : Int → Int → Int × Int) (better : Int → Int → Bool)
    (invariant : Int → Int × Int → Prop)
    (loads : ∀ d, least ≤ d → d ≤ greatest → (d - greatest) % 2 = 0 →
      vector.load d = some (reach d)) (starts : invariant greatest (start, 0))
    (keeps : ∀ d best, least ≤ d → d ≤ greatest → (d - greatest) % 2 = 0 → invariant d best →
      invariant (d - 2) (if better ((clamp d (reach d)).1 + (clamp d (reach d)).2) best.1 then
        ((clamp d (reach d)).1 + (clamp d (reach d)).2, (clamp d (reach d)).1) else best)) :
    ∃ result, extreme vector least greatest start clamp better = some result ∧
      ∃ d < least, invariant d result := by
  refine Loop.run_total
    (fun state => state.1 ≤ greatest ∧ (state.1 - greatest) % 2 = 0 ∧ invariant state.1 state.2)
    (fun state => (state.1 - least + 1).toNat) _ ?_ _ (greatest, start, 0)
    ⟨le_rfl, by omega, starts⟩ (by unfold rounds; dsimp only; omega)
  rintro ⟨d, xybest, xbest⟩ ⟨below, even, holds⟩
  dsimp only at below even holds
  rcases lt_or_ge d least with finished | within
  · exact Or.inr ⟨(xybest, xbest), by dsimp only; rw [if_neg (by omega)], d, finished, holds⟩
  · refine Or.inl ⟨(d - 2, _), ?_, ⟨?_, ?_, keeps d _ within below even holds⟩, ?_⟩
    · dsimp only
      rw [if_pos within, loads d within below even, Option.map_some]
      cases better ((clamp d (reach d)).1 + (clamp d (reach d)).2) xybest <;> rfl
    all_goals dsimp only; omega

/-- The extreme over the diagonals is attained on one of them, when the first one already
improves on the start. -/
theorem extreme_total (start : Int) (clamp : Int → Int → Int × Int) (better : Int → Int → Bool)
    (nonempty : least ≤ greatest) (loads : ∀ d, least ≤ d → d ≤ greatest → (d - greatest) % 2 = 0 →
      vector.load d = some (reach d)) (improves : better ((clamp greatest (reach greatest)).1 +
      (clamp greatest (reach greatest)).2) start = true) :
    ∃ result, extreme vector least greatest start clamp better = some result ∧
      ∃ d, least ≤ d ∧ d ≤ greatest ∧ (d - greatest) % 2 = 0 ∧
        clamp d (reach d) = (result.2, result.1 - result.2) := by
  -- Either nothing has been visited yet, or the best so far was attained somewhere.
  obtain ⟨result, answer, e, finished, attained⟩ := extreme_rule start clamp better
    (fun e best => (e = greatest ∧ best.1 = start) ∨
      ∃ d, least ≤ d ∧ d ≤ greatest ∧ (d - greatest) % 2 = 0 ∧
        clamp d (reach d) = (best.2, best.1 - best.2)) loads (Or.inl ⟨rfl, rfl⟩) (by
    intro d best within below even attained
    split
    · exact Or.inr ⟨d, within, below, even, by rw [add_sub_cancel_left]⟩
    · next worse =>
      refine Or.inr (attained.resolve_left ?_)
      rintro ⟨rfl, isStart⟩
      exact worse (isStart ▸ improves))
  exact ⟨result, answer, attained.resolve_left fun first => by omega⟩

end Best

/-! ### Points clamped to the box -/

section Clamp

variable {d reached : Int}

theorem forwardClamp_inside (wide : box.xoff ≤ box.xlim) (tall : box.yoff ≤ box.ylim)
    (above : box.dmin ≤ d) (below : d ≤ box.dmax)
    (path : Path (context.Same box) box.xoff box.yoff cost reached (reached - d)) :
    ∃ x, forwardClamp box d reached = (x, x - d) ∧ box.xoff ≤ x ∧ x ≤ box.xlim ∧
      box.yoff ≤ x - d ∧ x - d ≤ box.ylim ∧
      ∃ less ≤ cost, Path (context.Same box) box.xoff box.yoff less x (x - d) := by
  unfold Box.dmin at above
  unfold Box.dmax at below
  have ordered := path.ordered
  obtain ⟨x, clamped, left, right, top, bottom, back⟩ : ∃ x, forwardClamp box d reached =
      (x, x - d) ∧ box.xoff ≤ x ∧ x ≤ box.xlim ∧ box.yoff ≤ x - d ∧ x - d ≤ box.ylim ∧
      x ≤ reached := by
    unfold forwardClamp
    dsimp only
    split <;> split
    · exact ⟨box.ylim + d, by rw [add_sub_cancel_right], by omega, by omega, by omega, by omega,
        by omega⟩
    · exact ⟨reached, rfl, by omega, by omega, by omega, by omega, le_rfl⟩
    · exact ⟨box.ylim + d, by rw [add_sub_cancel_right], by omega, by omega, by omega, by omega,
        by omega⟩
    · exact ⟨box.xlim, rfl, by omega, by omega, by omega, by omega, by omega⟩
  obtain ⟨less, bound, path'⟩ := path.shortenEnd (reached - x).toNat (by omega) (by omega)
  rw [Int.toNat_of_nonneg (by omega), sub_sub_cancel,
    show reached - d - (reached - x) = x - d by ring] at path'
  exact ⟨x, clamped, left, right, top, bottom, less, bound, path'⟩

theorem backwardClamp_inside (wide : box.xoff < box.xlim) (tall : box.yoff < box.ylim)
    (above : box.dmin ≤ d) (below : d ≤ box.dmax) (positive : 0 < cost)
    (path : Path (context.Same box) reached (reached - d) cost box.xlim box.ylim) :
    ∃ x, backwardClamp box d reached = (x, x - d) ∧ box.xoff ≤ x ∧ x ≤ box.xlim ∧
      box.yoff ≤ x - d ∧ x - d ≤ box.ylim ∧ x + (x - d) < box.xlim + box.ylim ∧
      ∃ less ≤ cost, Path (context.Same box) x (x - d) less box.xlim box.ylim := by
  unfold Box.dmin at above
  unfold Box.dmax at below
  have ordered := path.ordered
  have longer := path.cost_le
  obtain ⟨x, clamped, left, right, top, bottom, before, forth⟩ : ∃ x, backwardClamp box d reached =
      (x, x - d) ∧ box.xoff ≤ x ∧ x ≤ box.xlim ∧ box.yoff ≤ x - d ∧ x - d ≤ box.ylim ∧
      x + (x - d) < box.xlim + box.ylim ∧ reached ≤ x := by
    unfold backwardClamp
    dsimp only
    split <;> split
    · exact ⟨box.yoff + d, by rw [add_sub_cancel_right], by omega, by omega, by omega, by omega,
        by omega, by omega⟩
    · exact ⟨box.xoff, rfl, by omega, by omega, by omega, by omega, by omega, by omega⟩
    · exact ⟨box.yoff + d, by rw [add_sub_cancel_right], by omega, by omega, by omega, by omega,
        by omega, by omega⟩
    · exact ⟨reached, rfl, by omega, by omega, by omega, by omega, by omega, le_rfl⟩
  obtain ⟨less, bound, path'⟩ := path.shortenStart (x - reached).toNat (by omega) (by omega)
  rw [Int.toNat_of_nonneg (by omega), add_sub_cancel,
    show reached - d + (x - reached) = x - d by ring] at path'
  exact ⟨x, clamped, left, right, top, bottom, before, less, bound, path'⟩

end Clamp

/-! ### The state of the two searches -/

/-- Both searches have reached the given cost and have not met. -/
structure Searching (context : Context) (box : Box) (cost : Nat) (search : Search)
    (reach back : Int → Int) : Prop where
  forward : ForwardFrontier context box cost search.fmin search.fmax reach
  backward : BackwardFrontier context box cost search.bmin search.bmax back
  fdHolds : Holds search.fd box.fmid cost search.fmin search.fmax reach
  bdHolds : Holds search.bd box.bmid cost search.bmin search.bmax back
  bound : ∀ whole, context.Across box whole → 2 * cost < whole

/-- The box is not empty, lies in the vectors, its coordinates are those of an array, and
equal elements have been trimmed from both ends. -/
structure Box.Proper (box : Box) (context : Context) : Prop where
  covers : context.Covers box
  xoff_nonneg : 0 ≤ box.xoff
  yoff_nonneg : 0 ≤ box.yoff
  wide : box.xoff < box.xlim
  tall : box.yoff < box.ylim
  most : box.xlim + box.ylim < offsetMax
  firstDiffer : ¬ context.Same box box.xoff box.yoff
  lastDiffer : ¬ context.Same box (box.xlim - 1) (box.ylim - 1)

namespace Searching

variable (searching : Searching context box cost search reach back)

include searching

/-- The points among which a search that gives up chooses are those of paths in the box. -/
theorem forwardClamped (proper : box.Proper context) {d : Int} (above : search.fmin ≤ d)
    (below : d ≤ search.fmax) (even : (d - search.fmax) % 2 = 0) :
    ∃ x, forwardClamp box d (reach d) = (x, x - d) ∧ box.xoff ≤ x ∧ x ≤ box.xlim ∧
      box.yoff ≤ x - d ∧ x - d ≤ box.ylim ∧
      ∃ less ≤ cost, Path (context.Same box) box.xoff box.yoff less x (x - d) :=
  forwardClamp_inside proper.wide.le proper.tall.le (searching.forward.low_ge.trans above)
    (below.trans searching.forward.high_le)
    (searching.forward.sound d above below (searching.forward.high_parity.of_even even))

theorem backwardClamped (proper : box.Proper context) (positive : 0 < cost) {d : Int}
    (above : search.bmin ≤ d) (below : d ≤ search.bmax) (even : (d - search.bmax) % 2 = 0) :
    ∃ x, backwardClamp box d (back d) = (x, x - d) ∧ box.xoff ≤ x ∧ x ≤ box.xlim ∧
      box.yoff ≤ x - d ∧ x - d ≤ box.ylim ∧ x + (x - d) < box.xlim + box.ylim ∧
      ∃ less ≤ cost, Path (context.Same box) x (x - d) less box.xlim box.ylim :=
  backwardClamp_inside proper.wide proper.tall (searching.backward.low_ge.trans above)
    (below.trans searching.backward.high_le) positive
    (searching.backward.sound above below (searching.backward.high_parity.of_even even))

/-- The best point of the bottom-up search. -/
theorem backwardExtreme (proper : box.Proper context) (positive : 0 < cost) :
    ∃ bxybest bxbest, extreme search.bd search.bmin search.bmax offsetMax (backwardClamp box)
        (fun sum best => sum < best) = some (bxybest, bxbest) ∧
      box.xoff ≤ bxbest ∧ bxbest ≤ box.xlim ∧ box.yoff ≤ bxybest - bxbest ∧
      bxybest - bxbest ≤ box.ylim ∧ bxybest < box.xlim + box.ylim ∧
      ∃ less ≤ cost, Path (context.Same box) bxbest (bxybest - bxbest) less box.xlim box.ylim := by
  have nonempty := searching.backward.low_le.trans searching.backward.high_ge
  obtain ⟨⟨bxybest, bxbest⟩, answer, d, above, below, even, attained⟩ :=
    extreme_total offsetMax (backwardClamp box) (fun sum best => sum < best) nonempty
      (fun d above below even =>
        searching.bdHolds d above below (searching.backward.high_parity.of_even even))
      (by
        obtain ⟨x, clamped, -, -, -, -, before, -⟩ :=
          searching.backwardClamped proper positive nonempty le_rfl (by omega)
        rw [clamped]
        have := proper.most
        exact decide_eq_true (by dsimp only; omega))
  obtain ⟨x, clamped, left, right, top, bottom, before, less, fewer, path⟩ :=
    searching.backwardClamped proper positive above below even
  rw [clamped, Prod.mk.injEq] at attained
  dsimp only at attained
  obtain ⟨rfl, sum⟩ := attained
  rw [sum] at top bottom path
  exact ⟨bxybest, x, answer, left, right, top, bottom, by omega, less, fewer, path⟩

theorem giveUp_total (proper : box.Proper context) (positive : 0 < cost) :
    ∃ part, giveUp box search = some part ∧ part.Splits box ∧
      ¬ (part.loMinimal = true ∧ part.hiMinimal = true) := by
  have forward := searching.forward
  have bound := searching.bound
  have nonempty := forward.low_le.trans forward.high_ge
  have origin := proper.xoff_nonneg
  have origin' := proper.yoff_nonneg
  obtain ⟨⟨fxybest, fxbest⟩, forwardAnswer, d, above, below, even, attained⟩ :=
    extreme_total (-1) (forwardClamp box) (fun sum best => best < sum) nonempty
      (fun d above below even =>
        searching.fdHolds d above below (forward.high_parity.of_even even))
      (by
        obtain ⟨x, clamped, left, -, top, -⟩ :=
          searching.forwardClamped proper nonempty le_rfl (by omega)
        rw [clamped]
        exact decide_eq_true (by dsimp only; omega))
  obtain ⟨x, clamped, left, right, top, bottom, less, fewer, path⟩ :=
    searching.forwardClamped proper above below even
  obtain ⟨bxybest, x', backwardAnswer, left', right', top', bottom', before', less', fewer',
    path'⟩ :=
    searching.backwardExtreme proper positive
  rw [clamped, Prod.mk.injEq] at attained
  dsimp only at attained
  obtain ⟨rfl, sum⟩ := attained
  unfold giveUp
  rw [forwardAnswer, backwardAnswer]
  simp only [Option.bind_eq_bind, Option.bind_some]
  split
  · refine ⟨_, rfl, ⟨left, right, by dsimp only; omega, by dsimp only; omega, by dsimp only; omega,
      ?_⟩, by simp⟩
    -- At the far corner there would be a whole path of at most the cost reached so far.
    dsimp only
    by_contra corner
    obtain ⟨rfl, sameY⟩ : x = box.xlim ∧ x - d = box.ylim := by omega
    rw [sameY] at path
    have := bound less path
    omega
  · refine ⟨_, rfl, ⟨left', right', by dsimp only; omega, by dsimp only; omega, ?_,
      by dsimp only; omega⟩, by simp⟩
    dsimp only
    by_contra corner
    obtain ⟨rfl, sameY⟩ : x' = box.xoff ∧ bxybest - x' = box.yoff := by omega
    rw [sameY] at path'
    have := bound less' path'
    omega

theorem forwardBest_total (covers : context.Covers box) :
    ∃ result, forwardBest context box search.fd search.fmin search.fmax search.c = some result ∧
      (0 < result.1 → (box.xoff + snakeLimit ≤ result.2.1 ∧ result.2.1 < box.xlim) ∧
        box.yoff + snakeLimit ≤ result.2.2 ∧ result.2.2 < box.ylim) := by
  refine @bestSnake_total _ _ _ _ _ _ _ _ (fun x y => (box.xoff + snakeLimit ≤ x ∧ x < box.xlim) ∧
    box.yoff + snakeLimit ≤ y ∧ y < box.ylim) (fun x y => by simp) (fun d above below even =>
    ⟨_, searching.fdHolds d above below (searching.forward.high_parity.of_even even)⟩) ?_
  rintro x y ⟨⟨left, right⟩, top, bottom⟩
  exact significant_total (by decide : 1 ≤ snakeLimit) fun k least most => ⟨_, Context.equal_inside
    (covers.x (x - k) (by omega) (by omega)) (covers.y (y - k) (by omega) (by omega))⟩

theorem backwardBest_total (covers : context.Covers box) :
    ∃ result, backwardBest context box search.bd search.bmin search.bmax search.c = some result ∧
      (0 < result.1 → (box.xoff < result.2.1 ∧ result.2.1 ≤ box.xlim - snakeLimit) ∧
        box.yoff < result.2.2 ∧ result.2.2 ≤ box.ylim - snakeLimit) := by
  refine @bestSnake_total _ _ _ _ _ _ _ _ (fun x y => (box.xoff < x ∧ x ≤ box.xlim - snakeLimit) ∧
    box.yoff < y ∧ y ≤ box.ylim - snakeLimit) (fun x y => by simp) (fun d above below even =>
    ⟨_, searching.bdHolds d above below (searching.backward.high_parity.of_even even)⟩) ?_
  rintro x y ⟨⟨left, right⟩, top, bottom⟩
  exact significant_total (by decide : 0 ≤ snakeLimit - 1) fun k least most =>
    ⟨_, Context.equal_inside
      (covers.x (x + k) (by omega) (by omega)) (covers.y (y + k) (by omega) (by omega))⟩

/-- A diagonal that the heuristic reports splits the box, and is not known to be shortest. -/
theorem heuristicPartition_total (covers : context.Covers box) :
    ∃ found, heuristicPartition context box search = some found ∧
      ∀ part, found = some part → part.Splits box ∧
        ¬ (part.loMinimal = true ∧ part.hiMinimal = true) := by
  obtain ⟨⟨best, x, y⟩, forwardAnswer, inner⟩ := searching.forwardBest_total covers
  obtain ⟨⟨best', x', y'⟩, backwardAnswer, inner'⟩ := searching.backwardBest_total covers
  unfold snakeLimit at inner inner'
  dsimp only at inner inner'
  unfold heuristicPartition
  rw [forwardAnswer, backwardAnswer]
  simp only [Option.bind_eq_bind, Option.bind_some]
  split
  · rename_i positive
    have inside := inner positive
    refine ⟨_, rfl, fun part isPart => ?_⟩
    obtain rfl := Option.some.inj isPart
    exact ⟨by constructor <;> dsimp only <;> omega, by simp⟩
  · refine ⟨_, rfl, fun part isPart => ?_⟩
    split at isPart
    · rename_i positive
      have inside := inner' positive
      obtain rfl := Option.some.inj isPart
      exact ⟨by constructor <;> dsimp only <;> omega, by simp⟩
    · contradiction

end Searching

/-- How a midpoint was found at the given cost. The two searches met on a shortest edit script, and
the bottom-up search needs as many edits or one less; or the search gave up; or the heuristic
picked a diagonal. -/
inductive Report (context : Context) (box : Box) (findMinimal : Bool) (cost : Nat)
    (part : Partition) : Prop
  | met (second : Nat) (minimal : part.loMinimal = true ∧ part.hiMinimal = true)
      (isHalf : second = cost ∨
        second + 1 = cost ∧ ¬ context.Same box part.xmid part.ymid)
      (lo : Path (context.Same box) box.xoff box.yoff cost part.xmid part.ymid)
      (hi : Path (context.Same box) part.xmid part.ymid second box.xlim box.ylim)
      (least : ∀ whole, context.Across box whole → cost + second ≤ whole)
  | gaveUp (search : Search) (reach back : Int → Int) (free : findMinimal = false)
      (expensive : context.tooExpensive ≤ cost)
      (searching : Searching context box cost search reach back)
      (answer : giveUp box search = some part)
  | guessed (free : findMinimal = false) (heuristic : context.heuristic = true)

/-! ### One round -/

/-- The two pairs of vectors have the same bounds. -/
structure Diagonals.SameBounds (diagonals other : Diagonals) : Prop where
  fdLower : diagonals.fdiag.lower = other.fdiag.lower
  fdUpper : diagonals.fdiag.upper = other.fdiag.upper
  bdLower : diagonals.bdiag.lower = other.bdiag.lower
  bdUpper : diagonals.bdiag.upper = other.bdiag.upper

/-- What a round leaves: searches of the given cost that have not met and may go on, or a
midpoint. -/
def RoundEnds (context : Context) (box : Box) (findMinimal : Bool) (diagonals : Diagonals)
    (cost : Nat) (outcome : Search ⊕ (Partition × Diagonals)) : Prop :=
  (∃ next reach back, outcome = .inl next ∧ Searching context box cost next reach back ∧
    next.c = cost + 1 ∧ Diagonals.SameBounds ⟨next.fd, next.bd⟩ diagonals ∧
    (findMinimal = false → cost < context.tooExpensive)) ∨
  ∃ part diagonals', outcome = .inr (part, diagonals') ∧ Midpoint context box findMinimal part ∧
    diagonals'.SameBounds diagonals ∧ Report context box findMinimal cost part

section Round

variable {diagonals : Diagonals}

theorem diagGiveUp_total (findMinimal bigSnake : Bool) (proper : box.Proper context)
    (searching : Searching context box cost search reach back) (positive : 0 < cost)
    (isCost : search.c = cost) (bounds : Diagonals.SameBounds ⟨search.fd, search.bd⟩ diagonals) :
    ∃ outcome, diagGiveUp context box findMinimal bigSnake search = some outcome ∧
      RoundEnds context box findMinimal diagonals cost outcome := by
  have goesOn : (findMinimal = false → cost < context.tooExpensive) →
      RoundEnds context box findMinimal diagonals cost (.inl { search with c := search.c + 1 }) :=
    fun cheap => Or.inl ⟨_, reach, back, rfl, ⟨searching.forward, searching.backward,
      searching.fdHolds, searching.bdHolds, searching.bound⟩, by dsimp only; omega, bounds, cheap⟩
  have reports : ∀ part : Partition, findMinimal = false → part.Splits box →
      ¬ (part.loMinimal = true ∧ part.hiMinimal = true) →
      Report context box findMinimal cost part →
      RoundEnds context box findMinimal diagonals cost (.inr (part, ⟨search.fd, search.bd⟩)) :=
    fun part free splits heuristic report => Or.inr ⟨part, _, rfl, ⟨splits,
      fun low high => absurd ⟨low, high⟩ heuristic, fun minimal => by simp [free] at minimal⟩,
      bounds, report⟩
  unfold diagGiveUp
  cases findMinimal with
  | true => exact ⟨_, rfl, goesOn nofun⟩
  | false =>
    obtain ⟨found, answer, isPart⟩ : ∃ found, tryHeuristic context box bigSnake search =
        some found ∧ ∀ part, found = some part → part.Splits box ∧
          ¬ (part.loMinimal = true ∧ part.hiMinimal = true) ∧ context.heuristic = true := by
      unfold tryHeuristic
      split
      · next tried =>
        obtain ⟨found, answer, isPart⟩ := searching.heuristicPartition_total proper.covers
        exact ⟨found, answer, fun part isFound =>
          ⟨(isPart part isFound).1, (isPart part isFound).2, tried.2.2⟩⟩
      · exact ⟨none, rfl, fun part isPart => by contradiction⟩
    simp only [Bool.false_eq_true, if_false, Option.bind_eq_bind, answer, Option.bind_some]
    cases found with
    | some part =>
      obtain ⟨splits, heuristic, tried⟩ := isPart part rfl
      exact ⟨_, rfl, reports part rfl splits heuristic (.guessed rfl tried)⟩
    | none =>
      dsimp only
      split
      · next expensive =>
        obtain ⟨part, gaveUp, splits, heuristic⟩ := searching.giveUp_total proper positive
        rw [gaveUp]
        exact ⟨_, rfl, reports part rfl splits heuristic
          (.gaveUp search reach back rfl (by omega) searching gaveUp)⟩
      · exact ⟨_, rfl, goesOn fun _ => by omega⟩

/-- The parity of a path through the box is that of its far corner. -/
theorem Context.Across.odd_iff {whole : Nat} (across : context.Across box whole) :
    box.odd = true ↔ whole % 2 = 1 := by
  have parity := across.parity
  rw [Diff.odd_iff]
  unfold Box.fmid Box.bmid
  omega

theorem same_outside {x y : Int} (same : context.Same box x y) :
    (box.xoff ≤ x ∧ box.yoff ≤ y) ∧ x < box.xlim ∧ y < box.ylim :=
  ⟨⟨same.1, same.2.2.1⟩, same.2.1, same.2.2.2.1⟩

theorem two_le_across (proper : box.Proper context) {whole : Nat}
    (across : context.Across box whole) : 2 ≤ whole :=
  across.two_le_cost proper.wide proper.tall proper.firstDiffer proper.lastDiffer

/-- Where the top-down search runs into the bottom-up search. -/
theorem forward_meeting (findMinimal : Bool) (proper : box.Proper context) {low high d x : Int}
    (backward : BackwardFrontier context box cost low high back)
    (bound : ∀ whole, context.Across box whole → 2 * cost < whole) (odd : box.odd = true)
    (above : low ≤ d) (below : d ≤ high) (parity : OnParity box.fmid (cost + 1) d)
    (overlap : back d ≤ x) (stops : ¬ context.Same box x (x - d))
    (path : Path (context.Same box) box.xoff box.yoff (cost + 1) x (x - d)) :
    Midpoint context box findMinimal ⟨x, x - d, true, true⟩ ∧
      Report context box findMinimal (cost + 1) ⟨x, x - d, true, true⟩ := by
  have parity' : OnParity box.bmid cost d := by
    have := odd_iff.mp odd
    unfold OnParity at *
    omega
  have rest := backward.sound above below parity'
  have drift := rest.drift
  obtain ⟨right, bottom⟩ := path.inside_of_bound cost
    (fun _ _ same => (same_outside same).2) proper.wide.le proper.tall.le
    (fun whole across => by have := bound whole across; omega) (by omega) (by omega)
  obtain ⟨less, fewer, rest'⟩ := rest.shortenStart (x - back d).toNat (by omega) (by omega)
  rw [Int.toNat_of_nonneg (by omega), add_sub_cancel,
    show back d - d + (x - back d) = x - d by ring] at rest'
  have ordered := path.ordered
  have longer := path.cost_le
  have least : ∀ whole, context.Across box whole → cost + 1 + less ≤ whole := fun whole across => by
    have := bound whole across
    omega
  refine ⟨⟨⟨ordered.1, right, ordered.2, bottom, by dsimp only; omega, ?_⟩, fun _ _ =>
    ⟨cost + 1, less, path, rest', least⟩, fun _ => ⟨rfl, rfl⟩⟩,
    .met less ⟨rfl, rfl⟩ (Or.inr ⟨?_, stops⟩) path rest' least⟩
  · dsimp only
    by_contra corner
    obtain ⟨rfl, sameY⟩ : x = box.xlim ∧ x - d = box.ylim := by omega
    rw [sameY] at path
    have := bound _ path
    have := two_le_across proper path
    omega
  · have := bound _ (path.trans rest')
    omega

/-- Where the bottom-up search runs into the top-down search. -/
theorem backward_meeting (findMinimal : Bool) (proper : box.Proper context) {low high d x : Int}
    (forward : ForwardFrontier context box (cost + 1) low high reach)
    (bound : ∀ whole, context.Across box whole → 2 * cost + 1 < whole) (even : box.odd = false)
    (above : low ≤ d) (below : d ≤ high) (parity : OnParity box.bmid (cost + 1) d)
    (overlap : x ≤ reach d)
    (path : Path (context.Same box) x (x - d) (cost + 1) box.xlim box.ylim) :
    Midpoint context box findMinimal ⟨x, x - d, true, true⟩ ∧
      Report context box findMinimal (cost + 1) ⟨x, x - d, true, true⟩ := by
  have parity' : OnParity box.fmid (cost + 1) d := by
    have : ¬ (box.fmid - box.bmid) % 2 = 1 := fun odd => by simp [odd_iff.mpr odd] at even
    unfold OnParity at *
    omega
  have first := forward.sound d above below parity'
  have drift := first.drift
  obtain ⟨left, top⟩ := path.inside_of_bound_back (cost + 1)
    (fun _ _ same => (same_outside same).1) proper.wide.le proper.tall.le
    (fun whole across => by have := bound whole across; omega) (by omega) (by omega)
  obtain ⟨less, fewer, first'⟩ := first.shortenEnd (reach d - x).toNat (by omega) (by omega)
  rw [Int.toNat_of_nonneg (by omega), sub_sub_cancel,
    show reach d - d - (reach d - x) = x - d by ring] at first'
  have ordered := path.ordered
  have longer := path.cost_le
  obtain rfl : less = cost + 1 := by
    have := bound _ (first'.trans path)
    omega
  have least : ∀ whole, context.Across box whole → cost + 1 + (cost + 1) ≤ whole :=
    fun whole across => by
      have := bound whole across
      omega
  refine ⟨⟨⟨left, ordered.1, top, ordered.2, ?_, by dsimp only; omega⟩, fun _ _ =>
    ⟨cost + 1, cost + 1, first', path, least⟩, fun _ => ⟨rfl, rfl⟩⟩,
    .met (cost + 1) ⟨rfl, rfl⟩ (Or.inl rfl) first' path least⟩
  dsimp only
  by_contra corner
  obtain ⟨rfl, sameY⟩ : x = box.xoff ∧ x - d = box.yoff := by omega
  rw [sameY] at path
  have := bound _ path
  omega

/-- The vectors given to diag have a cell for every diagonal of the box and one beyond. -/
def Diagonals.Roomy (diagonals : Diagonals) (box : Box) : Prop :=
  Diff.Roomy diagonals.fdiag box ∧ Diff.Roomy diagonals.bdiag box

theorem Diagonals.SameBounds.roomy {other : Diagonals} (bounds : other.SameBounds diagonals)
    (roomy : diagonals.Roomy box) : other.Roomy box :=
  ⟨⟨bounds.fdLower.trans_le roomy.1.1, roomy.1.2.trans_eq bounds.fdUpper.symm⟩,
    ⟨bounds.bdLower.trans_le roomy.2.1, roomy.2.2.trans_eq bounds.bdUpper.symm⟩⟩

/-- The second half of a round, with the top-down search one edit ahead. -/
theorem diagBackward_total (findMinimal bigSnake : Bool) (proper : box.Proper context)
    (forward : ForwardFrontier context box (cost + 1) search.fmin search.fmax reach)
    (backward : BackwardFrontier context box cost search.bmin search.bmax back)
    (fdHolds : Holds search.fd box.fmid (cost + 1) search.fmin search.fmax reach)
    (bdHolds : Holds search.bd box.bmid cost search.bmin search.bmax back)
    (bound : ∀ whole, context.Across box whole → 2 * cost + 1 < whole)
    (isCost : search.c = cost + 1)
    (bounds : Diagonals.SameBounds ⟨search.fd, search.bd⟩ diagonals)
    (roomy : diagonals.Roomy box) :
    ∃ outcome, diagBackward context box findMinimal bigSnake search = some outcome ∧
      RoundEnds context box findMinimal diagonals (cost + 1) outcome := by
  have most : box.xlim < offsetMax := by
    have := proper.most
    have := proper.tall
    have := proper.yoff_nonneg
    omega
  obtain ⟨first, second, lower, upper, swept, answer, lowerEq, upperEq, outcome⟩ :=
    backwardSweep_total proper.covers most proper.wide proper.tall backward fdHolds
      (bounds.roomy roomy).2 bigSnake bdHolds
  have bounds' : Diagonals.SameBounds ⟨search.fd, swept.vector⟩ diagonals :=
    ⟨bounds.fdLower, bounds.fdUpper, lowerEq.trans bounds.bdLower, upperEq.trans bounds.bdUpper⟩
  unfold diagBackward
  simp only [lower, upper, answer, Option.bind_eq_bind, Option.bind_some]
  rcases outcome with ⟨d, x, met, even, above, below, parity, overlap, path⟩ |
    ⟨apart, back', frontier, holds, gap⟩
  · rw [met]
    obtain ⟨midpoint, report⟩ := backward_meeting findMinimal proper forward bound even above below
      parity overlap path
    exact ⟨_, rfl, Or.inr ⟨_, _, rfl, midpoint, bounds', report⟩⟩
  · rw [apart]
    refine diagGiveUp_total findMinimal swept.bigSnake proper
      ⟨forward, frontier, fdHolds, holds, fun whole across => ?_⟩ (Nat.succ_pos cost) isCost bounds'
    -- A path of twice the cost would have an even end, where the searches are apart.
    have beyond := bound whole across
    by_contra short
    obtain rfl : whole = cost + 1 + (cost + 1) := by omega
    have even : box.odd = false := by
      rw [← Bool.not_eq_true, across.odd_iff]
      omega
    refine no_path_of_apart forward frontier (fun d above below parity above' below' => ?_) across
    refine gap even d above' below' ?_ above below
    have : ¬ (box.fmid - box.bmid) % 2 = 1 := fun odd => by simp [odd_iff.mpr odd] at even
    unfold OnParity Box.fmid Box.bmid at *
    omega

/-- One round of diag. -/
theorem diagRound_total (findMinimal : Bool) (proper : box.Proper context)
    (searching : Searching context box cost search reach back) (isCost : search.c = cost + 1)
    (bounds : Diagonals.SameBounds ⟨search.fd, search.bd⟩ diagonals)
    (roomy : diagonals.Roomy box) :
    ∃ outcome, diagRound context box findMinimal search = some outcome ∧
      RoundEnds context box findMinimal diagonals (cost + 1) outcome := by
  obtain ⟨forward, backward, fdHolds, bdHolds, bound⟩ := searching
  obtain ⟨first, second, lower, upper, swept, answer, lowerEq, upperEq, outcome⟩ :=
    forwardSweep_total proper.covers proper.xoff_nonneg proper.wide proper.tall forward bdHolds
      (bounds.roomy roomy).1 fdHolds
  have bounds' : Diagonals.SameBounds ⟨swept.vector, search.bd⟩ diagonals :=
    ⟨lowerEq.trans bounds.fdLower, upperEq.trans bounds.fdUpper, bounds.bdLower, bounds.bdUpper⟩
  unfold diagRound
  simp only [lower, upper, answer, Option.bind_eq_bind, Option.bind_some]
  rcases outcome with ⟨d, x, met, odd, above, below, parity, overlap, stops, path⟩ |
    ⟨apart, reach', frontier, holds, gap⟩
  · rw [met]
    obtain ⟨midpoint, report⟩ := forward_meeting findMinimal proper backward bound odd above below
      parity overlap stops path
    exact ⟨_, rfl, Or.inr ⟨_, _, rfl, midpoint, bounds', report⟩⟩
  · rw [apart]
    refine diagBackward_total findMinimal swept.bigSnake proper frontier backward holds bdHolds
      (fun whole across => ?_) isCost bounds' roomy
    have beyond := bound whole across
    by_contra short
    obtain rfl : whole = cost + 1 + cost := by omega
    have odd : box.odd = true := across.odd_iff.mpr (by omega)
    exact no_path_of_apart frontier backward
      (fun d above below parity above' below' => gap odd d above below parity above' below') across

end Round

/-- The search always reports a midpoint, and keeps the bounds of its vectors. It does not give up
before it has become too expensive. -/
theorem diag_reports (findMinimal : Bool) (proper : box.Proper context) {diagonals : Diagonals}
    (roomy : diagonals.Roomy box) :
    ∃ result, diag context box findMinimal diagonals = some result ∧
      Midpoint context box findMinimal result.1 ∧ result.2.SameBounds diagonals ∧
      ∃ cost, 0 < cost ∧ Report context box findMinimal cost result.1 ∧
        (findMinimal = false → cost = 1 ∨ cost ≤ context.tooExpensive) := by
  have wide := proper.wide
  have tall := proper.tall
  have insideF : diagonals.fdiag.Inside box.fmid := by
    have := roomy.1
    unfold Roomy Box.dmin Box.dmax at this
    unfold Box.fmid
    exact ⟨by omega, by omega⟩
  have insideB : diagonals.bdiag.Inside box.bmid := by
    have := roomy.2
    unfold Roomy Box.dmin Box.dmax at this
    unfold Box.bmid
    exact ⟨by omega, by omega⟩
  unfold diag
  simp only [Cells.store, Cells.set_inside insideF, Cells.set_inside insideB,
    Option.bind_eq_bind, Option.bind_some]
  refine Loop.run_total
    (fun search => ∃ cost reach back, Searching context box cost search reach back ∧
      search.c = cost + 1 ∧ Diagonals.SameBounds ⟨search.fd, search.bd⟩ diagonals ∧
      (findMinimal = false → cost = 0 ∨ cost < context.tooExpensive))
    (fun search => box.size - (2 * (search.c - 1)).toNat) _ ?_ _ _
    ⟨0, fun _ => box.xoff, fun _ => box.xlim, ⟨?_, ?_, ?_, ?_, ?_⟩, rfl, ⟨rfl, rfl, rfl, rfl⟩,
      fun _ => Or.inl rfl⟩ ?_
  · rintro search ⟨cost, reach, back, searching, isCost, bounds, cheap⟩
    obtain ⟨outcome, answer, ends⟩ :=
      diagRound_total findMinimal proper searching isCost bounds roomy
    rcases ends with ⟨next, reach', back', rfl, searching', isCost', bounds', cheap'⟩ |
      ⟨part, diagonals', rfl, midpoint, bounds', report⟩
    · refine Or.inl ⟨next, answer, ⟨cost + 1, reach', back', searching', isCost', bounds',
        fun free => Or.inr (cheap' free)⟩, ?_⟩
      -- The straight path bounds the cost.
      have most := searching'.bound _ (Path.straight wide.le tall.le)
      unfold Box.size
      dsimp only
      omega
    · refine Or.inr ⟨_, answer, midpoint, bounds', cost + 1, Nat.succ_pos cost, report,
        fun free => ?_⟩
      have := cheap free
      omega
  · exact Frontier.initial wide tall proper.firstDiffer rfl
  · exact BackFrontier.initial wide tall proper.lastDiffer rfl
  · intro d above below _
    obtain rfl : d = box.fmid := le_antisymm below above
    exact Cells.load_put_same insideF _
  · intro d above below _
    obtain rfl : d = box.bmid := le_antisymm below above
    exact Cells.load_put_same insideB _
  · intro whole across
    have := two_le_across proper across
    omega
  · dsimp only
    omega

theorem diag_total (findMinimal : Bool) (proper : box.Proper context) {diagonals : Diagonals}
    (roomy : diagonals.Roomy box) :
    ∃ result, diag context box findMinimal diagonals = some result ∧
      Midpoint context box findMinimal result.1 ∧ result.2.SameBounds diagonals := by
  obtain ⟨result, answer, midpoint, bounds, -⟩ := diag_reports findMinimal proper roomy
  exact ⟨result, answer, midpoint, bounds⟩

end Dwdiff.Diff
