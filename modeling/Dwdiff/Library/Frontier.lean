/-
This file develops the frontier of a search through the edit graph: for one
cost, how far along each diagonal a path of exactly that cost can lead. A sweep
that extends every diagonal from its two neighbours gives the frontier of the
next cost, and two frontiers, one from each corner, that have not met bound the
cost of a whole path from below.
-/

import Dwdiff.Library.EditGraph

namespace EditGraph

variable {diagonal start final x' y' : Int} {reach' : Int → Int}

/-- The diagonals of one cost have the parity of that cost. -/
def OnParity (middle : Int) (cost : Nat) (diagonal : Int) : Prop :=
  (diagonal - middle - cost) % 2 = 0

theorem OnParity.of_even {middle other : Int} {cost : Nat}
    (parity : OnParity middle cost diagonal) (even : (other - diagonal) % 2 = 0) :
    OnParity middle cost other := by
  unfold OnParity at *
  omega

/-- The search from `(x, y)` in the box that ends at `(right, bottom)` has found, for every
diagonal of the right parity between `low` and `high`, the furthest point of the given cost. -/
structure Frontier (same : Int → Int → Prop) (x y right bottom : Int) (cost : Nat)
    (low high : Int) (reach : Int → Int) : Prop where
  low_ge : x - bottom ≤ low
  high_le : high ≤ right - y
  low_le : low ≤ x - y
  high_ge : x - y ≤ high
  low_parity : OnParity (x - y) cost low
  high_parity : OnParity (x - y) cost high
  covers : ∀ diagonal, x - bottom ≤ diagonal → diagonal ≤ right - y →
    OnParity (x - y) cost diagonal → diagonal - (x - y) ≤ cost → x - y - diagonal ≤ cost →
    low ≤ diagonal ∧ diagonal ≤ high
  sound : ∀ diagonal, low ≤ diagonal → diagonal ≤ high → OnParity (x - y) cost diagonal →
    Path same x y cost (reach diagonal) (reach diagonal - diagonal)
  complete : ∀ x' y', x' ≤ right → y' ≤ bottom → Path same x y cost x' y' →
    x' ≤ reach (x' - y')

/-- Where a diagonal is entered: the furthest of the points that its neighbours offer. -/
def Launch (low high : Int) (reach : Int → Int) (diagonal start : Int) : Prop :=
  (low ≤ diagonal - 1 → diagonal - 1 ≤ high → reach (diagonal - 1) + 1 ≤ start) ∧
  (low ≤ diagonal + 1 → diagonal + 1 ≤ high → reach (diagonal + 1) ≤ start) ∧
  (low ≤ diagonal - 1 ∧ diagonal - 1 ≤ high ∧ start = reach (diagonal - 1) + 1 ∨
    low ≤ diagonal + 1 ∧ diagonal + 1 ≤ high ∧ start = reach (diagonal + 1))

/-- Following a diagonal as long as the elements are the same. -/
structure Climbs (same : Int → Int → Prop) (diagonal start final : Int) : Prop where
  le : start ≤ final
  equal : ∀ place, start ≤ place → place < final → same place (place - diagonal)
  stops : ¬ same final (final - diagonal)

variable {same : Int → Int → Prop} {x y right bottom low high : Int} {cost : Nat}
  {reach : Int → Int}

theorem Climbs.path (climbs : Climbs same diagonal start final) :
    Path same start (start - diagonal) 0 final (final - diagonal) := by
  have length : start + ((final - start).toNat : Int) = final := by
    have := climbs.le
    omega
  have path := Path.slide diagonal (final - start).toNat
    fun place above below => climbs.equal place above (by omega)
  rwa [length] at path

namespace Frontier

/-- The range of diagonals grows by one at each end, or shrinks where it met the box. -/
def nextLow (lowest low : Int) : Int := if lowest < low then low - 1 else low + 1

def nextHigh (highest high : Int) : Int := if high < highest then high + 1 else high - 1

variable (frontier : Frontier same x y right bottom cost low high reach)

include frontier

theorem nextLow_covers (wide : x < right) (diagonal : Int) (above : x - bottom ≤ diagonal)
    (below : diagonal ≤ right - y) (parity : OnParity (x - y) (cost + 1) diagonal)
    (near : diagonal - (x - y) ≤ (cost + 1 : Nat)) (near' : x - y - diagonal ≤ (cost + 1 : Nat)) :
    nextLow (x - bottom) low ≤ diagonal := by
  have lowParity := frontier.low_parity
  have lowGe := frontier.low_ge
  have lowLe := frontier.low_le
  have upper := frontier.covers (diagonal + 1)
  unfold OnParity at *
  unfold nextLow
  split
  · by_cases inside : diagonal + 1 ≤ right - y ∧ diagonal + 1 - (x - y) ≤ cost
    · have := (upper (by omega) inside.1 (by omega) inside.2 (by omega)).1
      omega
    · omega
  · omega

theorem nextHigh_covers (tall : y < bottom) (diagonal : Int) (above : x - bottom ≤ diagonal)
    (below : diagonal ≤ right - y) (parity : OnParity (x - y) (cost + 1) diagonal)
    (near : diagonal - (x - y) ≤ (cost + 1 : Nat)) (near' : x - y - diagonal ≤ (cost + 1 : Nat)) :
    diagonal ≤ nextHigh (right - y) high := by
  have highParity := frontier.high_parity
  have highLe := frontier.high_le
  have highGe := frontier.high_ge
  have lower := frontier.covers (diagonal - 1)
  unfold OnParity at *
  unfold nextHigh
  split
  · by_cases inside : x - bottom ≤ diagonal - 1 ∧ x - y - (diagonal - 1) ≤ cost
    · have := (lower inside.1 (by omega) (by omega) (by omega) inside.2).2
      omega
    · omega
  · omega

/-- A path of the next cost ends no further than the sweep has climbed. The induction follows
the last moves of the path: an edit comes from a neighbouring diagonal, and a move along the
diagonal cannot leave the point where the climb stopped. -/
theorem next_complete (sweep : ∀ x' y', x' ≤ right → y' ≤ bottom → Path same x y (cost + 1) x' y' →
      ∃ start, Launch low high reach (x' - y') start ∧ Climbs same (x' - y') start
        (reach' (x' - y'))) {cost' : Nat} (path : Path same x y cost' x' y')
    (next : cost' = cost + 1) (wide : x' ≤ right) (tall : y' ≤ bottom) : x' ≤ reach' (x' - y') := by
  induction path with
  | here => omega
  | @right _ x' y' path inductionHypothesis =>
    obtain rfl : _ = cost := Nat.succ.inj next
    obtain ⟨start, ⟨fromLeft, -, -⟩, climbs⟩ := sweep (x' + 1) y' wide tall path.right
    have reached := frontier.complete x' y' (by omega) tall path
    have ordered := path.ordered
    have drift := path.drift
    obtain ⟨above, below⟩ := frontier.covers (x' - y') (by omega) (by omega) path.parity
      (by omega) (by omega)
    rw [show x' + 1 - y' - 1 = x' - y' by ring] at fromLeft
    exact (by omega : x' + 1 ≤ reach (x' - y') + 1).trans ((fromLeft above below).trans climbs.le)
  | @down _ x' y' path inductionHypothesis =>
    obtain rfl : _ = cost := Nat.succ.inj next
    obtain ⟨start, ⟨-, fromAbove, -⟩, climbs⟩ := sweep x' (y' + 1) wide tall path.down
    have reached := frontier.complete x' y' wide (by omega) path
    have ordered := path.ordered
    have drift := path.drift
    obtain ⟨above, below⟩ := frontier.covers (x' - y') (by omega) (by omega) path.parity
      (by omega) (by omega)
    rw [show x' - (y' + 1) + 1 = x' - y' by ring] at fromAbove
    exact reached.trans ((fromAbove above below).trans climbs.le)
  | @diagonal _ x' y' path equal inductionHypothesis =>
    subst next
    obtain ⟨start, -, climbs⟩ := sweep x' y' (by omega) (by omega) path
    have reached := inductionHypothesis rfl (by omega) (by omega)
    rw [show x' + 1 - (y' + 1) = x' - y' by ring]
    refine Int.add_one_le_of_lt (lt_of_le_of_ne reached fun stopped => climbs.stops ?_)
    rwa [← stopped, sub_sub_cancel]

/-- A point that a sweep reaches lies at the end of a path of the next cost. -/
theorem next_sound (parity : OnParity (x - y) (cost + 1) diagonal)
    (launch : Launch low high reach diagonal start) (climbs : Climbs same diagonal start final) :
    Path same x y (cost + 1) final (final - diagonal) := by
  unfold OnParity at parity
  rcases launch.2.2 with ⟨above, below, entered⟩ | ⟨above, below, entered⟩
  · have path := (frontier.sound (diagonal - 1) above below
      (by unfold OnParity; omega)).right
    rw [show reach (diagonal - 1) - (diagonal - 1) = start - diagonal by omega, ← entered] at path
    exact path.trans climbs.path
  · have path := (frontier.sound (diagonal + 1) above below
      (by unfold OnParity; omega)).down
    rw [show reach (diagonal + 1) - (diagonal + 1) + 1 = start - diagonal by omega,
      ← entered] at path
    exact path.trans climbs.path

/-- A diagonal is entered inside the box. -/
theorem launch_ordered {diagonal start : Int} (parity : OnParity (x - y) (cost + 1) diagonal)
    (launch : Launch low high reach diagonal start) : x ≤ start ∧ y ≤ start - diagonal := by
  unfold OnParity at parity
  rcases launch.2.2 with ⟨above, below, entered⟩ | ⟨above, below, entered⟩
  · have := (frontier.sound _ above below (by unfold OnParity; omega)).ordered
    omega
  · have := (frontier.sound _ above below (by unfold OnParity; omega)).ordered
    omega

/-- The entry point that a program computes from two cells, where a cell outside the range
holds a sentinel below every point. -/
theorem launch_of_sentinel {sentinel before after : Int} (small : sentinel < x)
    (above : low - 1 ≤ diagonal) (below : diagonal ≤ high + 1)
    (parity : OnParity (x - y) (cost + 1) diagonal) (isBefore : before =
      if low ≤ diagonal - 1 ∧ diagonal - 1 ≤ high then reach (diagonal - 1) else sentinel)
    (isAfter : after =
      if low ≤ diagonal + 1 ∧ diagonal + 1 ≤ high then reach (diagonal + 1) else sentinel) :
    Launch low high reach diagonal (if before < after then after else before + 1) := by
  have lowParity := frontier.low_parity
  have highParity := frontier.high_parity
  have ordered := frontier.low_le.trans frontier.high_ge
  have reached : ∀ e, low ≤ e → e ≤ high → (e - diagonal) % 2 = 1 → x ≤ reach e :=
    fun e above below odd => by
      refine (frontier.sound e above below ?_).ordered.1
      unfold OnParity at *
      omega
  have reachedBefore := reached (diagonal - 1)
  have reachedAfter := reached (diagonal + 1)
  unfold OnParity at *
  unfold Launch
  split at isBefore <;> split at isAfter <;> split <;> omega

/-- One sweep: every diagonal of the new range is entered from its neighbours and climbed. -/
theorem next (wide : x < right) (tall : y < bottom)
    (sweep : ∀ diagonal, nextLow (x - bottom) low ≤ diagonal →
      diagonal ≤ nextHigh (right - y) high → OnParity (x - y) (cost + 1) diagonal →
      ∃ start, Launch low high reach diagonal start ∧ Climbs same diagonal start
        (reach' diagonal)) :
    Frontier same x y right bottom (cost + 1) (nextLow (x - bottom) low)
      (nextHigh (right - y) high) reach' where
  low_ge := by
    have := frontier.low_ge
    unfold nextLow
    split <;> omega
  high_le := by
    have := frontier.high_le
    unfold nextHigh
    split <;> omega
  low_le := by
    have := frontier.low_le
    unfold nextLow
    split <;> omega
  high_ge := by
    have := frontier.high_ge
    unfold nextHigh
    split <;> omega
  low_parity := by
    have := frontier.low_parity
    unfold OnParity nextLow at *
    split <;> omega
  high_parity := by
    have := frontier.high_parity
    unfold OnParity nextHigh at *
    split <;> omega
  covers := fun diagonal above below parity near near' =>
    ⟨frontier.nextLow_covers wide diagonal above below parity near near',
      frontier.nextHigh_covers tall diagonal above below parity near near'⟩
  sound := fun diagonal above below parity => by
    obtain ⟨start, launch, climbs⟩ := sweep diagonal above below parity
    exact frontier.next_sound parity launch climbs
  complete := fun x' y' within within' path => by
    refine frontier.next_complete (fun x' y' within within' path => ?_) path rfl within within'
    have ordered := path.ordered
    have drift := path.drift
    exact sweep _ (frontier.nextLow_covers wide _ (by omega) (by omega) path.parity
      drift.1 drift.2) (frontier.nextHigh_covers tall _ (by omega) (by omega) path.parity
      drift.1 drift.2) path.parity

omit frontier in
/-- Before the first edit the frontier is the corner itself, when the elements there differ. -/
theorem initial (wide : x < right) (tall : y < bottom) (differ : ¬ same x y)
    (start : reach (x - y) = x) :
    Frontier same x y right bottom 0 (x - y) (x - y) reach where
  low_ge := by omega
  high_le := by omega
  low_le := le_rfl
  high_ge := le_rfl
  low_parity := by unfold OnParity; omega
  high_parity := by unfold OnParity; omega
  covers := fun diagonal _ _ _ near near' => by omega
  sound := fun diagonal above below _ => by
    obtain rfl : diagonal = x - y := by omega
    rw [start, sub_sub_cancel]
    exact .here
  complete := fun x' y' _ _ path => by
    obtain ⟨rfl, rfl⟩ := path.stays differ rfl
    exact start.ge

end Frontier

/-! ### The search from the other corner -/

/-- The frontier of a search backwards from `(right, bottom)`, as a frontier of the mirrored
graph. -/
def BackFrontier (same : Int → Int → Prop) (x y right bottom : Int) (cost : Nat)
    (low high : Int) (reach : Int → Int) : Prop :=
  Frontier (mirror same) (-right) (-bottom) (-x) (-y) cost (-high) (-low)
    fun diagonal => -reach (-diagonal)

/-- Where a diagonal is entered from the far side. -/
def BackLaunch (low high : Int) (reach : Int → Int) (diagonal start : Int) : Prop :=
  Launch (-high) (-low) (fun diagonal => -reach (-diagonal)) (-diagonal) (-start)

/-- Following a diagonal backwards as long as the elements are the same. -/
structure BackClimbs (same : Int → Int → Prop) (diagonal start final : Int) : Prop where
  le : final ≤ start
  equal : ∀ place, final ≤ place → place < start → same place (place - diagonal)
  stops : ¬ same (final - 1) (final - 1 - diagonal)

theorem BackClimbs.mirrored (climbs : BackClimbs same diagonal start final) :
    Climbs (mirror same) (-diagonal) (-start) (-final) where
  le := neg_le_neg climbs.le
  equal := fun place above below => by
    have equal := climbs.equal (-place - 1) (by omega) (by omega)
    show same (-place - 1) (-(place - -diagonal) - 1)
    rwa [show -(place - -diagonal) - 1 = -place - 1 - diagonal by ring]
  stops := fun equal => climbs.stops <| by
    have equal' : same (- -final - 1) (-(-final - -diagonal) - 1) := equal
    rwa [show - -final - 1 = final - 1 by ring,
      show -(-final - -diagonal) - 1 = final - 1 - diagonal by ring] at equal'

namespace BackFrontier

variable (frontier : BackFrontier same x y right bottom cost low high reach)

include frontier

theorem low_le : low ≤ right - bottom := by
  have := Frontier.high_ge frontier
  omega

theorem high_ge : right - bottom ≤ high := by
  have := Frontier.low_le frontier
  omega

theorem low_ge : x - bottom ≤ low := by
  have := Frontier.high_le frontier
  omega

theorem high_le : high ≤ right - y := by
  have := Frontier.low_ge frontier
  omega

theorem low_parity : OnParity (right - bottom) cost low := by
  have := Frontier.high_parity frontier
  unfold OnParity at *
  omega

theorem high_parity : OnParity (right - bottom) cost high := by
  have := Frontier.low_parity frontier
  unfold OnParity at *
  omega

theorem sound (above : low ≤ diagonal) (below : diagonal ≤ high)
    (parity : OnParity (right - bottom) cost diagonal) :
    Path same (reach diagonal) (reach diagonal - diagonal) cost right bottom := by
  have path := Frontier.sound frontier (-diagonal) (by omega) (by omega)
    (by unfold OnParity at *; omega)
  rw [neg_neg, show -reach diagonal - -diagonal = -(reach diagonal - diagonal) by ring] at path
  exact path.unmirrored

theorem complete (wide : x ≤ x') (tall : y ≤ y') (path : Path same x' y' cost right bottom) :
    low ≤ x' - y' ∧ x' - y' ≤ high ∧ reach (x' - y') ≤ x' := by
  have ordered := path.ordered
  have drift := path.drift
  have parity := path.parity
  have reached := Frontier.complete frontier (-x') (-y') (by omega) (by omega) path.mirrored
  have covered := Frontier.covers frontier (-x' - -y') (by omega) (by omega)
    (by unfold OnParity; omega) (by omega) (by omega)
  rw [show -(-x' - -y') = x' - y' by ring] at reached
  omega

theorem launch_ordered {diagonal start : Int}
    (parity : OnParity (right - bottom) (cost + 1) diagonal)
    (launch : BackLaunch low high reach diagonal start) :
    start ≤ right ∧ start - diagonal ≤ bottom := by
  have ordered := @Frontier.launch_ordered _ _ _ _ _ _ _ _ _ frontier (-diagonal) _
    (by unfold OnParity at *; omega) launch
  omega

theorem launch_of_sentinel {sentinel before after : Int} (great : right < sentinel)
    (above : low - 1 ≤ diagonal) (below : diagonal ≤ high + 1)
    (parity : OnParity (right - bottom) (cost + 1) diagonal) (isBefore : before =
      if low ≤ diagonal - 1 ∧ diagonal - 1 ≤ high then reach (diagonal - 1) else sentinel)
    (isAfter : after =
      if low ≤ diagonal + 1 ∧ diagonal + 1 ≤ high then reach (diagonal + 1) else sentinel) :
    BackLaunch low high reach diagonal (if before < after then before else after - 1) := by
  have ordered := frontier.low_le.trans frontier.high_ge
  have lowParity := frontier.low_parity
  have highParity := frontier.high_parity
  have reached : ∀ e, low ≤ e → e ≤ high → (e - diagonal) % 2 = 1 → reach e ≤ right :=
    fun e above below odd => by
      refine (frontier.sound above below ?_).ordered.1
      unfold OnParity at *
      omega
  have reachedBefore := reached (diagonal - 1)
  have reachedAfter := reached (diagonal + 1)
  have left : -(-diagonal - 1) = diagonal + 1 := by ring
  have above : -(-diagonal + 1) = diagonal - 1 := by ring
  unfold OnParity at *
  simp only [BackLaunch, Launch, left, above]
  split at isBefore <;> split at isAfter <;> split <;> omega

theorem next_sound (parity : OnParity (right - bottom) (cost + 1) diagonal)
    (launch : BackLaunch low high reach diagonal start)
    (climbs : BackClimbs same diagonal start final) :
    Path same final (final - diagonal) (cost + 1) right bottom := by
  have path := Frontier.next_sound frontier (by unfold OnParity at *; omega) launch
    climbs.mirrored
  rw [show -final - -diagonal = -(final - diagonal) by ring] at path
  exact path.unmirrored

/-- One sweep backwards. -/
theorem next (wide : x < right) (tall : y < bottom)
    (sweep : ∀ diagonal, Frontier.nextLow (x - bottom) low ≤ diagonal →
      diagonal ≤ Frontier.nextHigh (right - y) high →
      OnParity (right - bottom) (cost + 1) diagonal →
      ∃ start, BackLaunch low high reach diagonal start ∧ BackClimbs same diagonal start
        (reach' diagonal)) :
    BackFrontier same x y right bottom (cost + 1) (Frontier.nextLow (x - bottom) low)
      (Frontier.nextHigh (right - y) high) reach' := by
  have newLow : Frontier.nextLow (-right - -y) (-high) = -Frontier.nextHigh (right - y) high := by
    unfold Frontier.nextLow Frontier.nextHigh
    split <;> split <;> omega
  have newHigh : Frontier.nextHigh (-x - -bottom) (-low) = -Frontier.nextLow (x - bottom) low := by
    unfold Frontier.nextLow Frontier.nextHigh
    split <;> split <;> omega
  unfold BackFrontier
  rw [← newLow, ← newHigh]
  refine Frontier.next frontier (by omega) (by omega) fun diagonal above below parity => ?_
  obtain ⟨start, launch, climbs⟩ := sweep (-diagonal) (by omega) (by omega)
    (by unfold OnParity at *; omega)
  have climbs' := climbs.mirrored
  rw [BackLaunch, neg_neg] at launch
  rw [neg_neg] at climbs'
  exact ⟨-start, launch, climbs'⟩

omit frontier in
/-- Before the first edit, when the last elements differ. -/
theorem initial (wide : x < right) (tall : y < bottom) (differ : ¬ same (right - 1) (bottom - 1))
    (start : reach (right - bottom) = right) :
    BackFrontier same x y right bottom 0 (right - bottom) (right - bottom) reach := by
  have differ' : ¬ mirror same (-right) (-bottom) := by
    unfold mirror
    rwa [neg_neg, neg_neg]
  have corner : -reach (-(-right - -bottom)) = -right := by
    rw [show -(-right - -bottom) = right - bottom by ring, start]
  have mirrored := @Frontier.initial _ (-right) (-bottom) (-x) (-y)
    (fun diagonal => -reach (-diagonal)) (by omega) (by omega) differ' corner
  unfold BackFrontier
  rwa [show -(right - bottom) = -right - -bottom by ring]

end BackFrontier

/-! ### Two searches -/

/-- Two frontiers that have not met rule out a path of their joint cost. -/
theorem no_path_of_apart {cost' : Nat} {low' high' : Int}
    (forward : Frontier same x y right bottom cost low high reach)
    (backward : BackFrontier same x y right bottom cost' low' high' reach')
    (apart : ∀ diagonal, low ≤ diagonal → diagonal ≤ high → OnParity (x - y) cost diagonal →
      low' ≤ diagonal → diagonal ≤ high' → reach diagonal < reach' diagonal) :
    ¬ Path same x y (cost + cost') right bottom := by
  intro path
  obtain ⟨x', y', first, second⟩ := path.split (Nat.le_add_right cost cost')
  rw [Nat.add_sub_cancel_left] at second
  have start := first.ordered
  have finish := second.ordered
  have drift := first.drift
  have reached := forward.complete x' y' finish.1 finish.2 first
  obtain ⟨above, below⟩ := forward.covers (x' - y') (by omega) (by omega) first.parity
    drift.1 drift.2
  obtain ⟨above', below', reached'⟩ := backward.complete start.1 start.2 second
  exact absurd (apart _ above below first.parity above' below') (by omega)

/-- A path that ends near enough to the diagonal of the far corner has not left the box, when
every whole path costs at least as much as it and the rest together. -/
theorem Path.inside_of_bound {x' y' : Int} (rest : Nat) (path : Path same x y cost x' y')
    (outside : ∀ place other, same place other → place < right ∧ other < bottom)
    (left : x ≤ right) (top : y ≤ bottom)
    (bound : ∀ whole, Path same x y whole right bottom → cost + rest ≤ whole)
    (near : x' - y' - (right - bottom) ≤ rest) (near' : right - bottom - (x' - y') ≤ rest) :
    x' ≤ right ∧ y' ≤ bottom := by
  obtain ⟨less, clipped, saved⟩ := path.clip outside left top
  have finish := bound _ (clipped.trans (Path.straight (min_le_right _ _) (min_le_right _ _)))
  by_contra beyond
  rcases le_total x' right with within | past
  · rw [min_eq_left within] at finish saved
    rw [min_eq_right (by omega)] at finish saved
    omega
  · rw [min_eq_right past] at finish saved
    rcases le_total y' bottom with within | past'
    · rw [min_eq_left within] at finish saved
      omega
    · rw [min_eq_right past'] at finish saved
      omega

/-- The same for a path that leads to the far corner. -/
theorem Path.inside_of_bound_back (rest : Nat) (path : Path same x' y' cost right bottom)
    (outside : ∀ place other, same place other → x ≤ place ∧ y ≤ other) (left : x ≤ right)
    (top : y ≤ bottom) (bound : ∀ whole, Path same x y whole right bottom → cost + rest ≤ whole)
    (near : x' - y' - (x - y) ≤ rest) (near' : x - y - (x' - y') ≤ rest) : x ≤ x' ∧ y ≤ y' := by
  have inside := @Path.inside_of_bound _ _ _ (-x) (-y) _ _ _ rest path.mirrored
    (fun place other equal => by
      have := outside _ _ equal
      omega)
    (by omega) (by omega) (fun whole across => bound whole across.unmirrored) (by omega) (by omega)
  omega

end EditGraph
