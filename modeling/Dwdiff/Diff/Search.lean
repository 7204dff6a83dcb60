/-
This file proves that the search of diffseq.h is correct: diag always answers,
every access stays inside the vectors, the point it reports splits the two
portions properly, and unless it gave up the point lies on a shortest edit
script. The two vectors of diagonals hold the frontiers of two searches through
the edit graph, one from each corner.
-/

import Dwdiff.Library.Frontier
import Dwdiff.Diff.DiffSeq

namespace Dwdiff.Diff

open EditGraph
open Frontier (nextLow nextHigh)

variable {greatest high d : Int} {bd fd : Cells (Option Int)}

/-- The elements at two places inside the box are the same. -/
def Context.Same (context : Context) (box : Box) (x y : Int) : Prop :=
  box.xoff ≤ x ∧ x < box.xlim ∧ box.yoff ≤ y ∧ y < box.ylim ∧
    context.xvec.value x = context.yvec.value y

/-- The two vectors reach over the whole box. -/
structure Context.Covers (context : Context) (box : Box) : Prop where
  x : ∀ place, box.xoff ≤ place → place < box.xlim → context.xvec.Inside place
  y : ∀ place, box.yoff ≤ place → place < box.ylim → context.yvec.Inside place

variable {context : Context} {box : Box}

theorem Context.equal_inside {x y : Int} (insideX : context.xvec.Inside x)
    (insideY : context.yvec.Inside y) :
    context.equal x y = some (context.xvec.value x == context.yvec.value y) := by
  rw [Context.equal, Cells.get_inside insideX, Cells.get_inside insideY]
  rfl

/-! ### Following a diagonal -/

theorem slideDown_climbs (covers : context.Covers box) {d x0 : Int} (left : box.xoff ≤ x0)
    (top : box.yoff ≤ x0 - d) :
    ∃ x, slideDown context box.xlim box.ylim d x0 = some x ∧
      Climbs (context.Same box) d x0 x := by
  refine Loop.run_total
    (fun x => x0 ≤ x ∧ ∀ place, x0 ≤ place → place < x → context.Same box place (place - d))
    (fun x => (box.xlim - x).toNat) _ (fun x holds => ?_) _ x0 ⟨le_rfl, fun _ _ _ => by omega⟩
    (Nat.lt_succ_self _)
  obtain ⟨above, equal⟩ := holds
  by_cases within : x < box.xlim ∧ x - d < box.ylim
  · have probe := Context.equal_inside (covers.x x (by omega) within.1)
      (covers.y (x - d) (by omega) within.2)
    by_cases match' : context.xvec.value x = context.yvec.value (x - d)
    · refine Or.inl ⟨x + 1, ?_, ⟨by omega, fun place low high => ?_⟩, by dsimp only; omega⟩
      · simp [within, probe, match']
      · rcases Int.lt_or_eq_of_le (Int.lt_add_one_iff.mp high) with before | rfl
        · exact equal place low before
        · exact ⟨by omega, within.1, by omega, within.2, match'⟩
    · refine Or.inr ⟨x, ?_, above, equal, fun same => match' same.2.2.2.2⟩
      simp [within, probe, match']
  · refine Or.inr ⟨x, ?_, above, equal, fun same => within ⟨same.2.1, same.2.2.2.1⟩⟩
    simp [within]

theorem slideUp_climbs (covers : context.Covers box) {d x0 : Int} (right : x0 ≤ box.xlim)
    (bottom : x0 - d ≤ box.ylim) :
    ∃ x, slideUp context box.xoff box.yoff d x0 = some x ∧
      BackClimbs (context.Same box) d x0 x := by
  refine Loop.run_total
    (fun x => x ≤ x0 ∧ ∀ place, x ≤ place → place < x0 → context.Same box place (place - d))
    (fun x => (x - box.xoff).toNat) _ (fun x holds => ?_) _ x0 ⟨le_rfl, fun _ _ _ => by omega⟩
    (Nat.lt_succ_self _)
  obtain ⟨below, equal⟩ := holds
  by_cases within : box.xoff < x ∧ box.yoff < x - d
  · have probe := Context.equal_inside (covers.x (x - 1) (by omega) (by omega))
      (covers.y (x - d - 1) (by omega) (by omega))
    by_cases match' : context.xvec.value (x - 1) = context.yvec.value (x - d - 1)
    · refine Or.inl ⟨x - 1, ?_, ⟨by omega, fun place low high => ?_⟩, by dsimp only; omega⟩
      · simp [within, probe, match']
      · rcases Int.lt_or_eq_of_le low with after | rfl
        · exact equal place (by omega) high
        · rw [show x - 1 - d = x - d - 1 by ring]
          exact ⟨by omega, by omega, by omega, by omega, match'⟩
    · refine Or.inr ⟨x, ?_, below, equal, fun same => match' ?_⟩
      · simp [within, probe, match']
      · rw [show x - d - 1 = x - 1 - d by ring]
        exact same.2.2.2.2
  · refine Or.inr ⟨x, ?_, below, equal, fun same => within ⟨?_, ?_⟩⟩
    · simp [within]
    · have := same.1
      omega
    · have := same.2.2.1
      omega

/-! ### The limits of a search -/

/-- The vector holds the frontier on the diagonals of its cost. -/
def Holds (vector : Cells (Option Int)) (middle : Int) (cost : Nat) (low high : Int)
    (reach : Int → Int) : Prop :=
  ∀ d, low ≤ d → d ≤ high → OnParity middle cost d → vector.load d = some (reach d)

/-- The vector has a cell for every diagonal of the box and one beyond at each side. -/
def Roomy (vector : Cells (Option Int)) (box : Box) : Prop :=
  vector.lower ≤ box.dmin - 1 ∧ box.dmax + 1 ≤ vector.upper

/-- What a sweep reads: the frontier of the last cost, and the sentinel just outside. -/
def Fringed (vector : Cells (Option Int)) (middle : Int) (cost : Nat) (low high : Int)
    (reach : Int → Int) (sentinel first last : Int) : Prop :=
  ∀ d, first ≤ d → d ≤ last → OnParity middle cost d →
    vector.load d = some (if low ≤ d ∧ d ≤ high then reach d else sentinel)

/-- A limit is moved: a sentinel is written if the range grows. -/
theorem limit_stores {vector : Cells (Option Int)} {grows : Prop} [Decidable grows] {place : Int}
    (inside : grows → vector.Inside place) (sentinel further nearer : Int) :
    ∃ moved, (if grows then (vector.store place sentinel).map fun vector => (further, vector)
        else some (nearer, vector)) = some (if grows then further else nearer, moved) ∧
      (moved.lower = vector.lower ∧ moved.upper = vector.upper) ∧
      (∀ d, d ≠ place → moved.load d = vector.load d) ∧
      (grows → moved.load place = some sentinel) := by
  by_cases isGrowing : grows
  · refine ⟨vector.put place (some sentinel), ?_, ⟨rfl, rfl⟩,
      fun d other => Cells.load_put_other other _, fun _ => ?_⟩
    · rw [if_pos isGrowing, if_pos isGrowing, Cells.store, Cells.set_inside (inside isGrowing)]
      rfl
    · exact Cells.load_put_same (inside isGrowing) _
  · exact ⟨vector, by rw [if_neg isGrowing, if_neg isGrowing], ⟨rfl, rfl⟩, fun _ _ => rfl,
      fun grows => absurd grows isGrowing⟩

/-- Both limits have been moved. -/
theorem limits_fringed {vector : Cells (Option Int)} {middle least low : Int} {cost : Nat}
    {reach : Int → Int} (sentinel : Int) (holds : Holds vector middle cost low high reach)
    (below : vector.lower ≤ least - 1) (above : greatest + 1 ≤ vector.upper) (lowGe : least ≤ low)
    (highLe : high ≤ greatest) (ordered : low ≤ high) (lowParity : OnParity middle cost low)
    (highParity : OnParity middle cost high) :
    ∃ first second, lowerLimit vector least sentinel low =
        some (nextLow least low, first) ∧
      upperLimit first greatest sentinel high = some (nextHigh greatest high, second) ∧
      second.lower = vector.lower ∧ second.upper = vector.upper ∧
      Fringed second middle cost low high reach sentinel (nextLow least low - 1)
        (nextHigh greatest high + 1) := by
  unfold OnParity at lowParity highParity
  obtain ⟨first, lower, range, old, new⟩ := @limit_stores vector (low > least) _ (low - 2)
    (fun grows => ⟨by omega, by omega⟩) sentinel (low - 1) (low + 1)
  obtain ⟨second, upper, range', old', new'⟩ := @limit_stores first (high < greatest) _ (high + 2)
    (fun grows => ⟨by omega, by omega⟩) sentinel (high + 1) (high - 1)
  refine ⟨first, second, lower, upper, range'.1.trans range.1, range'.2.trans range.2,
    fun d starts ends parity => ?_⟩
  unfold OnParity at parity
  by_cases within : low ≤ d ∧ d ≤ high
  · rw [if_pos within, old' d (by omega), old d (by omega)]
    exact holds d within.1 within.2 parity
  · rw [if_neg within]
    -- Outside the old range there is one diagonal at each side, which holds the sentinel.
    obtain ⟨rfl, grows⟩ | ⟨rfl, grows⟩ :
        d = low - 2 ∧ low > least ∨ d = high + 2 ∧ high < greatest := by
      unfold nextLow at starts
      unfold nextHigh at ends
      split at starts <;> split at ends <;> omega
    · rw [old' _ (by omega)]
      exact new grows
    · exact new' grows

/-! ### A sweep over the diagonals -/

/-- The new range of diagonals, between its extremes. -/
theorem next_range (box : Box) {low : Int} (lowGe : box.dmin ≤ low) (highLe : high ≤ box.dmax) :
    box.dmin ≤ nextLow box.dmin low ∧ nextHigh box.dmax high ≤ box.dmax ∧
      low - 1 ≤ nextLow box.dmin low ∧ nextHigh box.dmax high ≤ high + 1 := by
  unfold nextLow nextHigh
  refine ⟨?_, ?_, ?_, ?_⟩ <;> split <;> omega

theorem nextHigh_parity {cost : Nat} {middle : Int} (parity : OnParity middle cost high) :
    OnParity middle (cost + 1) (nextHigh greatest high) := by
  unfold OnParity nextHigh at *
  split <;> omega

/-- What a visit of a diagonal answers: the two searches meet on it, or the sweep goes on. -/
def Visited (vector : Cells (Option Int)) (d x : Int) (met big : Bool) :
    (Int × Cells (Option Int) × Bool) ⊕ Swept :=
  if met then .inr ⟨vector.put d (some x), big, some (x, x - d)⟩
  else .inl (d - 2, vector.put d (some x), big)

/-- What a visit of a diagonal of the next cost finds: the fringe beside it, and a cell for the
new value. -/
structure Visiting (box : Box) (middle : Int) (cost : Nat) (low high : Int) (reach : Int → Int)
    (sentinel : Int) (vector : Cells (Option Int)) (d : Int) : Prop where
  within : nextLow box.dmin low ≤ d
  above : low - 1 ≤ d
  below : d ≤ high + 1
  parity : OnParity middle (cost + 1) d
  inside : vector.Inside d
  beside : ∀ e, e = d - 1 ∨ e = d + 1 →
    vector.load e = some (if low ≤ e ∧ e ≤ high then reach e else sentinel)

section SweepRule

variable {middle low high sentinel : Int} {cost : Nat} {reach : Int → Int}
  {step : Int × Cells (Option Int) × Bool → Option ((Int × Cells (Option Int) × Bool) ⊕ Swept)}

/-- A sweep visits the diagonals from the greatest to the least, two apart. It stops at the
first one where the searches meet, or has written the value of every diagonal. -/
theorem sweep_total (value : Int → Int → Prop) (met : Int → Int → Bool)
    (ends : ∀ d vector big, d < nextLow box.dmin low →
      step (d, vector, big) = some (.inr ⟨vector, big, none⟩))
    (visits : ∀ {d vector} big, Visiting box middle cost low high reach sentinel vector d →
      ∃ x big', value d x ∧ step (d, vector, big) = some (Visited vector d x (met d x) big'))
    {vector : Cells (Option Int)} (holds : Holds vector middle cost low high reach)
    (roomy : Roomy vector box) (lowGe : box.dmin ≤ low) (highLe : high ≤ box.dmax)
    (ordered : low ≤ high) (lowParity : OnParity middle cost low)
    (highParity : OnParity middle cost high) (big : Bool) :
    ∃ first second, lowerLimit vector box.dmin sentinel low =
        some (nextLow box.dmin low, first) ∧
      upperLimit first box.dmax sentinel high = some (nextHigh box.dmax high, second) ∧
      ∃ swept, Loop.run step (rounds (nextLow box.dmin low) (nextHigh box.dmax high))
        (nextHigh box.dmax high, second, big) = some swept ∧
      swept.vector.lower = vector.lower ∧ swept.vector.upper = vector.upper ∧
      ((∃ d x, swept.met = some (x, x - d) ∧ OnParity middle (cost + 1) d ∧ value d x ∧
          met d x = true) ∨
        swept.met = none ∧ ∃ reach' : Int → Int, ∀ d, nextLow box.dmin low ≤ d →
          d ≤ nextHigh box.dmax high → OnParity middle (cost + 1) d →
          swept.vector.load d = some (reach' d) ∧ value d (reach' d) ∧
            met d (reach' d) = false) := by
  obtain ⟨lowest, highest, lowered, raised⟩ := next_range box lowGe highLe
  obtain ⟨roomyLow, roomyHigh⟩ := roomy
  obtain ⟨first, second, limitLow, limitHigh, lowerEq, upperEq, fringed⟩ :=
    limits_fringed sentinel holds roomyLow roomyHigh lowGe highLe ordered lowParity highParity
  rw [← lowerEq] at roomyLow ⊢
  rw [← upperEq] at roomyHigh ⊢
  refine ⟨first, second, limitLow, limitHigh, ?_⟩
  -- Only diagonals of the next cost are written, so the fringe is left in place.
  refine Loop.run_total
    (fun state => (state.2.1.lower = second.lower ∧ state.2.1.upper = second.upper ∧
        ∀ e, OnParity middle cost e → state.2.1.load e = second.load e) ∧
      state.1 ≤ nextHigh box.dmax high ∧ OnParity middle (cost + 1) state.1 ∧
      ∀ d, state.1 < d → nextLow box.dmin low ≤ d → d ≤ nextHigh box.dmax high →
        OnParity middle (cost + 1) d →
        ∃ x, state.2.1.load d = some x ∧ value d x ∧ met d x = false)
    (fun state => (state.1 - nextLow box.dmin low + 1).toNat) _ ?_ _
    (nextHigh box.dmax high, second, big)
    ⟨⟨rfl, rfl, fun _ _ => rfl⟩, le_rfl, nextHigh_parity highParity,
      fun d beyond _ within => absurd beyond (by dsimp only; omega)⟩
    (by unfold rounds; dsimp only; omega)
  rintro ⟨d, present, big⟩ ⟨⟨lowerEq, upperEq, kept⟩, within, parity, done⟩
  dsimp only at lowerEq upperEq kept within parity done
  rcases lt_or_ge d (nextLow box.dmin low) with finished | least
  · refine Or.inr ⟨_, ends d present big finished, lowerEq, upperEq,
      Or.inr ⟨rfl, fun e => (present.load e).getD 0, fun e least below parity => ?_⟩⟩
    obtain ⟨x, loads, isValue, isMet⟩ := done e (by omega) least below parity
    simp only [loads, Option.getD_some]
    exact ⟨trivial, isValue, isMet⟩
  · have inside : present.Inside d := ⟨by omega, by omega⟩
    have beside : ∀ e, e = d - 1 ∨ e = d + 1 →
        present.load e = some (if low ≤ e ∧ e ≤ high then reach e else sentinel) := by
      intro e isBeside
      have parity' : OnParity middle cost e := by
        unfold OnParity at *
        omega
      rw [kept e parity']
      exact fringed e (by omega) (by omega) parity'
    obtain ⟨x, big', isValue, steps⟩ :=
      visits big ⟨least, by omega, by omega, parity, inside, beside⟩
    cases isMet : met d x with
    | true =>
      rw [isMet] at steps
      exact Or.inr ⟨_, steps, lowerEq, upperEq, Or.inl ⟨d, x, rfl, parity, isValue, isMet⟩⟩
    | false =>
      rw [isMet] at steps
      unfold OnParity at *
      refine Or.inl ⟨_, steps, ⟨⟨lowerEq, upperEq, fun e parity' => ?_⟩, by dsimp only; omega,
        by dsimp only; omega, fun e beyond least' within' parity' => ?_⟩, by dsimp only; omega⟩
      · exact (Cells.load_put_other (by omega) _).trans (kept e parity')
      · by_cases same : e = d
        · subst same
          exact ⟨x, Cells.load_put_same inside _, isValue, isMet⟩
        · rw [Cells.load_put_other same]
          dsimp only at beyond
          exact done e (by omega) least' within' parity'

end SweepRule

theorem meets_eq {check : Bool} {other : Cells (Option Int)} {least value : Int}
    {overlap : Int → Bool}
    (holds : check = true → least ≤ d → d ≤ greatest → other.load d = some value) :
    meets check other least greatest d overlap =
      some (check && decide (least ≤ d) && decide (d ≤ greatest) && overlap value) := by
  unfold meets
  by_cases inside : check = true ∧ least ≤ d ∧ d ≤ greatest
  · obtain ⟨rfl, above, below⟩ := inside
    simp [above, below, holds rfl above below]
  · rw [if_neg inside]
    by_cases checked : check = true
    · by_cases above : least ≤ d
      · have : ¬ d ≤ greatest := fun below => inside ⟨checked, above, below⟩
        simp [this]
      · simp [above]
    · simp [checked]

theorem odd_iff : box.odd = true ↔ (box.fmid - box.bmid) % 2 = 1 := by
  unfold Box.odd
  rw [bne_iff_ne]
  omega

/-- The forward search from the near corner of the box. -/
abbrev ForwardFrontier (context : Context) (box : Box) :=
  Frontier (context.Same box) box.xoff box.yoff box.xlim box.ylim

/-- The backward search from the far corner. -/
abbrev BackwardFrontier (context : Context) (box : Box) :=
  BackFrontier (context.Same box) box.xoff box.yoff box.xlim box.ylim

/-! ### The two sweeps of a round -/

section Sweeps

variable {cost : Nat} {low high low' high' : Int} {reach back : Int → Int}

/-- The value that a visit of the top-down search writes. -/
def ForwardValue (context : Context) (box : Box) (low high : Int) (reach : Int → Int)
    (d x : Int) : Prop :=
  ∃ start, Launch low high reach d start ∧ Climbs (context.Same box) d start x

/-- The value that a visit of the bottom-up search writes. -/
def BackwardValue (context : Context) (box : Box) (low high : Int) (reach : Int → Int)
    (d x : Int) : Prop :=
  ∃ start, BackLaunch low high reach d start ∧ BackClimbs (context.Same box) d start x

theorem forwardStep_visits (covers : context.Covers box) (origin : 0 ≤ box.xoff)
    (frontier : ForwardFrontier context box cost low high reach)
    (holds : Holds bd box.bmid cost low' high' back) (big : Bool)
    (visiting : Visiting box box.fmid cost low high reach (-1) fd d) :
    ∃ x big', ForwardValue context box low high reach d x ∧
      forwardStep context box bd low' high' (nextLow box.dmin low) (d, fd, big) =
        some (Visited fd d x
          (box.odd && decide (low' ≤ d) && decide (d ≤ high') && decide (back d ≤ x)) big') := by
  obtain ⟨within, above, below, parity, inside, beside⟩ := visiting
  obtain ⟨x0, entered, launch⟩ : ∃ x0, _ = x0 ∧ Launch low high reach d x0 := ⟨_, rfl,
    frontier.launch_of_sentinel (by omega : -1 < box.xoff) above below parity rfl rfl⟩
  obtain ⟨left, top⟩ := frontier.launch_ordered parity launch
  obtain ⟨x, slides, climbs⟩ := slideDown_climbs covers left top
  have other : box.odd = true → low' ≤ d → d ≤ high' → bd.load d = some (back d) :=
    fun odd above' below' => holds d above' below' <| by
      have := odd_iff.mp odd
      unfold OnParity at *
      omega
  have stores : fd.store d x = some (fd.put d (some x)) := Cells.set_inside inside _
  refine ⟨x, big || decide (x - x0 > snakeLimit), ⟨x0, launch, climbs⟩, ?_⟩
  simp only [forwardStep, if_pos within, beside _ (Or.inl rfl),
    beside _ (Or.inr rfl), Option.bind_eq_bind, Option.bind_some, entered,
    slides, stores, meets_eq other]
  rfl

theorem backwardStep_visits (covers : context.Covers box) (most : box.xlim < offsetMax)
    (frontier : BackwardFrontier context box cost low high reach)
    (holds : Holds fd box.fmid (cost + 1) low' high' back) (big : Bool)
    (visiting : Visiting box box.bmid cost low high reach offsetMax bd d) :
    ∃ x big', BackwardValue context box low high reach d x ∧
      backwardStep context box fd low' high' (nextLow box.dmin low) (d, bd, big) =
        some (Visited bd d x
          (!box.odd && decide (low' ≤ d) && decide (d ≤ high') && decide (x ≤ back d)) big') := by
  obtain ⟨within, above, below, parity, inside, beside⟩ := visiting
  obtain ⟨x0, entered, launch⟩ : ∃ x0, _ = x0 ∧ BackLaunch low high reach d x0 := ⟨_, rfl,
    frontier.launch_of_sentinel most above below parity rfl rfl⟩
  obtain ⟨right, bottom⟩ := frontier.launch_ordered parity launch
  obtain ⟨x, slides, climbs⟩ := slideUp_climbs covers right bottom
  have other : (!box.odd) = true → low' ≤ d → d ≤ high' → fd.load d = some (back d) :=
    fun even above' below' => holds d above' below' <| by
      have : ¬ (box.fmid - box.bmid) % 2 = 1 := fun odd => by simp [odd_iff.mpr odd] at even
      unfold OnParity at *
      omega
  have stores : bd.store d x = some (bd.put d (some x)) := Cells.set_inside inside _
  refine ⟨x, big || decide (x0 - x > snakeLimit), ⟨x0, launch, climbs⟩, ?_⟩
  simp only [backwardStep, if_pos within, beside _ (Or.inl rfl),
    beside _ (Or.inr rfl), Option.bind_eq_bind, Option.bind_some, entered,
    slides, stores, meets_eq other]
  rfl

/-- One sweep of the top-down search either meets the other search, or gives the frontier of
the next cost, apart from the other search. -/
theorem forwardSweep_total (covers : context.Covers box) (origin : 0 ≤ box.xoff)
    (wide : box.xoff < box.xlim) (tall : box.yoff < box.ylim)
    (frontier : ForwardFrontier context box cost low high reach)
    (holds : Holds bd box.bmid cost low' high' back) (roomy : Roomy fd box)
    (vectorHolds : Holds fd box.fmid cost low high reach) :
    ∃ first second, lowerLimit fd box.dmin (-1) low = some (nextLow box.dmin low, first) ∧
      upperLimit first box.dmax (-1) high = some (nextHigh box.dmax high, second) ∧
      ∃ swept, forwardSweep context box bd low' high' (nextLow box.dmin low)
        (nextHigh box.dmax high) second = some swept ∧
      swept.vector.lower = fd.lower ∧ swept.vector.upper = fd.upper ∧
      ((∃ d x, swept.met = some (x, x - d) ∧ box.odd = true ∧ low' ≤ d ∧ d ≤ high' ∧
          OnParity box.fmid (cost + 1) d ∧ back d ≤ x ∧ ¬ context.Same box x (x - d) ∧
          Path (context.Same box) box.xoff box.yoff (cost + 1) x (x - d)) ∨
        swept.met = none ∧ ∃ reach',
          ForwardFrontier context box (cost + 1) (nextLow box.dmin low)
            (nextHigh box.dmax high) reach' ∧
          Holds swept.vector box.fmid (cost + 1) (nextLow box.dmin low)
            (nextHigh box.dmax high) reach' ∧
          (box.odd = true → ∀ d, nextLow box.dmin low ≤ d →
            d ≤ nextHigh box.dmax high → OnParity box.fmid (cost + 1) d →
            low' ≤ d → d ≤ high' → reach' d < back d)) := by
  obtain ⟨first, second, limitLow, limitHigh, swept, answer, lowerEq, upperEq, outcome⟩ :=
    sweep_total
    (ForwardValue context box low high reach)
    (fun d x => box.odd && decide (low' ≤ d) && decide (d ≤ high') && decide (back d ≤ x))
    (fun d vector big finished => by rw [forwardStep, if_neg (by omega)]; rfl)
    (forwardStep_visits covers origin frontier holds)
    vectorHolds roomy frontier.low_ge frontier.high_le (frontier.low_le.trans frontier.high_ge)
    frontier.low_parity frontier.high_parity false
  refine ⟨first, second, limitLow, limitHigh, swept, answer, lowerEq, upperEq, ?_⟩
  rcases outcome with ⟨d, x, met, parity, ⟨start, launch, climbs⟩, isMet⟩ |
    ⟨apart, reach', all⟩
  · simp only [Bool.and_eq_true, decide_eq_true_eq] at isMet
    exact Or.inl ⟨d, x, met, isMet.1.1.1, isMet.1.1.2, isMet.1.2, parity, isMet.2, climbs.stops,
      frontier.next_sound parity launch climbs⟩
  · refine Or.inr ⟨apart, reach', ?_, ?_, ?_⟩
    · exact frontier.next wide tall fun d least below parity => (all d least below parity).2.1
    · exact fun d least below parity => (all d least below parity).1
    · intro odd d least below parity above' below'
      simpa [odd, above', below'] using (all d least below parity).2.2

/-- One sweep of the bottom-up search, against a top-down search that is one edit ahead. -/
theorem backwardSweep_total (covers : context.Covers box) (most : box.xlim < offsetMax)
    (wide : box.xoff < box.xlim) (tall : box.yoff < box.ylim)
    (frontier : BackwardFrontier context box cost low high reach)
    (holds : Holds fd box.fmid (cost + 1) low' high' back) (roomy : Roomy bd box) (big : Bool)
    (vectorHolds : Holds bd box.bmid cost low high reach) :
    ∃ first second, lowerLimit bd box.dmin offsetMax low = some (nextLow box.dmin low, first) ∧
      upperLimit first box.dmax offsetMax high = some (nextHigh box.dmax high, second) ∧
      ∃ swept, backwardSweep context box fd low' high' (nextLow box.dmin low)
        (nextHigh box.dmax high) second big = some swept ∧
      swept.vector.lower = bd.lower ∧ swept.vector.upper = bd.upper ∧
      ((∃ d x, swept.met = some (x, x - d) ∧ box.odd = false ∧ low' ≤ d ∧ d ≤ high' ∧
          OnParity box.bmid (cost + 1) d ∧ x ≤ back d ∧
          Path (context.Same box) x (x - d) (cost + 1) box.xlim box.ylim) ∨
        swept.met = none ∧ ∃ reach',
          BackwardFrontier context box (cost + 1) (nextLow box.dmin low)
            (nextHigh box.dmax high) reach' ∧
          Holds swept.vector box.bmid (cost + 1) (nextLow box.dmin low)
            (nextHigh box.dmax high) reach' ∧
          (box.odd = false → ∀ d, nextLow box.dmin low ≤ d →
            d ≤ nextHigh box.dmax high → OnParity box.bmid (cost + 1) d →
            low' ≤ d → d ≤ high' → back d < reach' d)) := by
  obtain ⟨first, second, limitLow, limitHigh, swept, answer, lowerEq, upperEq, outcome⟩ :=
    sweep_total
    (BackwardValue context box low high reach)
    (fun d x => !box.odd && decide (low' ≤ d) && decide (d ≤ high') && decide (x ≤ back d))
    (fun d vector big finished => by rw [backwardStep, if_neg (by omega)]; rfl)
    (backwardStep_visits covers most frontier holds)
    vectorHolds roomy frontier.low_ge frontier.high_le (frontier.low_le.trans frontier.high_ge)
    frontier.low_parity frontier.high_parity big
  refine ⟨first, second, limitLow, limitHigh, swept, answer, lowerEq, upperEq, ?_⟩
  rcases outcome with ⟨d, x, met, parity, ⟨start, launch, climbs⟩, isMet⟩ |
    ⟨apart, reach', all⟩
  · simp only [Bool.and_eq_true, decide_eq_true_eq, Bool.not_eq_true'] at isMet
    exact Or.inl ⟨d, x, met, isMet.1.1.1, isMet.1.1.2, isMet.1.2, parity, isMet.2,
      frontier.next_sound parity launch climbs⟩
  · refine Or.inr ⟨apart, reach', ?_, ?_, ?_⟩
    · exact frontier.next wide tall fun d least below parity => (all d least below parity).2.1
    · exact fun d least below parity => (all d least below parity).1
    · intro even d least below parity above' below'
      simpa [even, above', below'] using (all d least below parity).2.2

end Sweeps

end Dwdiff.Diff
