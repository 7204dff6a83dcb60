/-
This file is about moving a run of flagged places by one: when the value that
comes under a flag at one end equals the value that loses its flag at the other
end, the values without a flag stay the same. A stretch of flagged places whose
two ends hold values that occur nowhere among the others is never broken up.
-/

import Dwdiff.Library.Selection
import Mathlib.Logic.Relation

namespace Selection

variable {Value : Type}

/-- The run of flagged places from `start` up to `stop`, with nothing flagged next to it. -/
structure Run (flagged : Int → Bool) (start stop : Int) : Prop where
  nonempty : start < stop
  inside : ∀ place, start ≤ place → place < stop → flagged place = true
  before : flagged (start - 1) = false
  after : flagged stop = false

/-- A run has been moved by one place, back or forward. -/
inductive Slide (value : Int → Value) (last : Int) : (Int → Bool) → (Int → Bool) → Prop
  | back {flagged : Int → Bool} {start stop : Int} (run : Run flagged start stop)
      (low : 0 < start) (high : stop ≤ last) (same : value (start - 1) = value (stop - 1)) :
      Slide value last flagged
        (Function.update (Function.update flagged (start - 1) true) (stop - 1) false)
  | forward {flagged : Int → Bool} {start stop : Int} (run : Run flagged start stop)
      (low : 0 ≤ start) (high : stop < last) (same : value start = value stop) :
      Slide value last flagged
        (Function.update (Function.update flagged start false) stop true)

variable {value : Int → Value} {last : Int} {flagged flagged' : Int → Bool}

theorem update_twice (flagged : Int → Bool) (first second : Int) (new new' : Bool) (place : Int) :
    Function.update (Function.update flagged first new) second new' place =
      if place = second then new' else if place = first then new else flagged place := by
  rw [Function.update_apply, Function.update_apply]

/-- The values without a flag stay the same. -/
theorem Slide.kept_eq (slide : Slide value last flagged flagged') :
    kept flagged' value 0 last = kept flagged value 0 last := by
  cases slide with
  | @back start stop run low high same =>
    have nonempty := run.nonempty
    have changes := update_twice flagged (start - 1) (stop - 1) true false
    have split : ∀ flagged : Int → Bool, kept flagged value 0 last =
        kept flagged value 0 (start - 1) ++ (kept flagged value (start - 1) stop ++
          kept flagged value stop last) := fun flagged => by
      rw [← kept_append _ _ (by omega) high, ← kept_append _ _ (by omega) (by omega)]
    rw [split, split flagged]
    congr 1
    · exact kept_congr (fun place above below => by
        rw [changes, if_neg (by omega), if_neg (by omega)]) fun _ _ _ _ => rfl
    congr 1
    · -- Before, only the first place of this stretch is kept; afterwards only the last one.
      have first : kept flagged value (start - 1) stop = [value (start - 1)] := by
        rw [kept_append _ _ (by omega : start - 1 ≤ start) (by omega), kept_flagged _ _ run.inside,
          List.append_nil]
        have single := kept_single flagged value run.before
        rwa [sub_add_cancel] at single
      rw [first, same, kept_append _ _ (by omega : start - 1 ≤ stop - 1) (by omega),
        kept_flagged _ _ fun place above below => ?_, List.nil_append]
      · have clear : Function.update (Function.update flagged (start - 1) true) (stop - 1) false
            (stop - 1) = false := Function.update_self ..
        have single := kept_single _ value clear
        rwa [sub_add_cancel] at single
      · rw [changes, if_neg (by omega)]
        split
        · rfl
        · exact run.inside place (by omega) (by omega)
    · exact kept_congr (fun place above below => by
        rw [changes, if_neg (by omega), if_neg (by omega)]) fun _ _ _ _ => rfl
  | @forward start stop run low high same =>
    have nonempty := run.nonempty
    have changes := update_twice flagged start stop false true
    have split : ∀ flagged : Int → Bool, kept flagged value 0 last =
        kept flagged value 0 start ++ (kept flagged value start (stop + 1) ++
          kept flagged value (stop + 1) last) := fun flagged => by
      rw [← kept_append _ _ (by omega) (by omega), ← kept_append _ _ low (by omega)]
    rw [split, split flagged]
    congr 1
    · exact kept_congr (fun place above below => by
        rw [changes, if_neg (by omega), if_neg (by omega)]) fun _ _ _ _ => rfl
    congr 1
    · have final : kept flagged value start (stop + 1) = [value stop] := by
        rw [kept_append _ _ nonempty.le (by omega), kept_flagged _ _ run.inside, List.nil_append,
          kept_single _ _ run.after]
      have start' : Function.update (Function.update flagged start false) stop true start =
          false := by
        rw [changes, if_neg (by omega), if_pos rfl]
      rw [final, ← same, kept_append _ _ (by omega : start ≤ start + 1) (by omega),
        kept_single _ _ start', kept_flagged _ _ fun place above below => ?_, List.append_nil]
      rw [changes]
      split
      · rfl
      · rw [if_neg (by omega)]
        exact run.inside place (by omega) (by omega)
    · exact kept_congr (fun place above below => by
        rw [changes, if_neg (by omega), if_neg (by omega)]) fun _ _ _ _ => rfl

/-- Nothing outside the sequence is ever flagged. -/
theorem Slide.outside (slide : Slide value last flagged flagged') {place : Int}
    (out : place < 0 ∨ last ≤ place) : flagged' place = flagged place := by
  cases slide with
  | back run low high same | forward run low high same =>
    have nonempty := run.nonempty
    rw [update_twice, if_neg (by omega), if_neg (by omega)]

/-- A stretch of flagged places whose ends hold values that are not kept anywhere. -/
structure Pinned (value : Int → Value) (last : Int) (flagged : Int → Bool) (left right : Int) :
    Prop where
  ordered : left ≤ right
  inside : ∀ place, left ≤ place → place ≤ right → flagged place = true
  leftNew : value left ∉ kept flagged value 0 last
  rightNew : value right ∉ kept flagged value 0 last

/-- A slide takes a flag away only at an end of its run, from a value that is kept. -/
theorem Slide.pinned (slide : Slide value last flagged flagged') {left right : Int}
    (pinned : Pinned value last flagged left right) : Pinned value last flagged' left right := by
  refine ⟨pinned.ordered, ?_, by rw [slide.kept_eq]; exact pinned.leftNew,
    by rw [slide.kept_eq]; exact pinned.rightNew⟩
  intro place above below
  have leftNew := pinned.leftNew
  have rightNew := pinned.rightNew
  have ordered := pinned.ordered
  cases slide with
  | @back start stop run low high same =>
    have nonempty := run.nonempty
    rw [update_twice]
    by_cases atStop : place = stop - 1
    · -- The stretch would reach beyond the run, or end with a kept value.
      exfalso
      have isKept : value (stop - 1) ∈ kept flagged value 0 last := by
        rw [mem_kept]
        exact ⟨start - 1, by omega, by omega, run.before, same⟩
      by_cases ends : place = right
      · rw [← ends, atStop] at rightNew
        exact rightNew isKept
      · have := pinned.inside stop (by omega) (by omega)
        rw [run.after] at this
        contradiction
    · rw [if_neg atStop]
      split
      · rfl
      · exact pinned.inside place above below
  | @forward start stop run low high same =>
    have nonempty := run.nonempty
    rw [update_twice]
    split
    · rfl
    · by_cases atStart : place = start
      · exfalso
        have isKept : value start ∈ kept flagged value 0 last := by
          rw [mem_kept]
          exact ⟨stop, by omega, high, run.after, same.symm⟩
        by_cases starts : place = left
        · rw [← starts, atStart] at leftNew
          exact leftNew isKept
        · have := pinned.inside (start - 1) (by omega) (by omega)
          rw [run.before] at this
          contradiction
      · rw [if_neg atStart]
        exact pinned.inside place above below

/-! ### Many slides -/

/-- One set of flags arises from another by moving runs. -/
abbrev Slides (value : Int → Value) (last : Int) := Relation.ReflTransGen (Slide value last)

theorem Slides.kept_eq (slides : Slides value last flagged flagged') :
    kept flagged' value 0 last = kept flagged value 0 last := by
  induction slides with
  | refl => rfl
  | tail _ slide inductionHypothesis => exact slide.kept_eq.trans inductionHypothesis

theorem Slides.count_eq (slides : Slides value last flagged flagged') :
    count flagged' 0 last = count flagged 0 last := by
  rw [← kept_length _ value, slides.kept_eq, kept_length]

theorem Slides.pinned (slides : Slides value last flagged flagged') {left right : Int}
    (pinned : Pinned value last flagged left right) : Pinned value last flagged' left right := by
  induction slides with
  | refl => exact pinned
  | tail _ slide inductionHypothesis => exact slide.pinned inductionHypothesis

end Selection
