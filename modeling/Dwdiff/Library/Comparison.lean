/-
This file is about comparison functions that answer with the sign of a number,
as those given to a sorting routine do. A comparison of items is carried over to
lists of items, from left to right and with a shorter list before its
continuations, and to other items along an injection. Two lists that are sorted
by one comparison can be searched for a common item in one pass over both.
-/

import Mathlib.Data.List.Basic

namespace Comparison

variable {Item Other : Type}

/-- The comparison is a total order: it calls two items equal only if they are, answers with the
opposite sign when the items are exchanged, and is transitive. -/
structure IsTotalOrder (compare : Item → Item → Int) : Prop where
  eq_iff : ∀ first second, compare first second = 0 ↔ first = second
  flip : ∀ first second, compare first second < 0 ↔ 0 < compare second first
  trans : ∀ first second third, compare first second ≤ 0 → compare second third ≤ 0 →
    compare first third ≤ 0

section Laws

variable {compare : Item → Item → Int} (order : IsTotalOrder compare)

include order

theorem IsTotalOrder.self (item : Item) : compare item item = 0 := (order.eq_iff item item).mpr rfl

theorem IsTotalOrder.total (first second : Item) :
    compare first second ≤ 0 ∨ compare second first ≤ 0 := by
  have opposite := order.flip second first
  omega

/-- An item below another one is below everything that follows that one. -/
theorem IsTotalOrder.lt_of_lt_of_le {first second third : Item} (below : compare first second < 0)
    (next : compare second third ≤ 0) : compare first third < 0 := by
  have atMost := order.trans first second third (by omega) next
  rcases Int.lt_or_eq_of_le atMost with less | same
  · exact less
  · obtain rfl := (order.eq_iff first third).mp same
    have opposite := order.flip first second
    omega

/-- A comparison of the images under an injection. -/
theorem IsTotalOrder.comap {image : Other → Item} (injective : Function.Injective image) :
    IsTotalOrder fun first second => compare (image first) (image second) where
  eq_iff _ _ := (order.eq_iff _ _).trans injective.eq_iff
  flip _ _ := order.flip _ _
  trans _ _ _ := order.trans _ _ _

end Laws

/-! ### Lists of items -/

/-- The comparison of two lists, at the first place where they differ. -/
def lexicographic (compare : Item → Item → Int) : List Item → List Item → Int
  | [], [] => 0
  | [], _ :: _ => -1
  | _ :: _, [] => 1
  | first :: firsts, second :: seconds =>
    if compare first second ≠ 0 then compare first second
    else lexicographic compare firsts seconds

/-- Lists with front parts of the same length are compared there first. -/
theorem lexicographic_append (compare : Item → Item → Int) :
    ∀ {firsts seconds : List Item}, firsts.length = seconds.length →
      ∀ firsts' seconds' : List Item,
        lexicographic compare (firsts ++ firsts') (seconds ++ seconds') =
          if lexicographic compare firsts seconds ≠ 0 then lexicographic compare firsts seconds
          else lexicographic compare firsts' seconds'
  | [], [], _, _, _ => rfl
  | first :: firsts, second :: seconds, sameLength, firsts', seconds' => by
    rw [List.cons_append, List.cons_append, lexicographic, lexicographic,
      lexicographic_append compare (Nat.succ.inj sameLength) firsts' seconds']
    by_cases differs : compare first second ≠ 0
    · rw [if_pos differs, if_pos differs, if_pos differs]
    · rw [if_neg differs, if_neg differs]

section Lexicographic

variable {compare : Item → Item → Int} (order : IsTotalOrder compare)

include order

theorem lexicographic_eq_iff : ∀ firsts seconds : List Item,
    lexicographic compare firsts seconds = 0 ↔ firsts = seconds
  | [], [] => by simp [lexicographic]
  | [], _ :: _ => by simp [lexicographic]
  | _ :: _, [] => by simp [lexicographic]
  | first :: firsts, second :: seconds => by
    rw [lexicographic]
    by_cases same : first = second
    · subst same
      rw [if_neg (not_not_intro (order.self first)), lexicographic_eq_iff firsts seconds]
      simp
    · have differs := mt (order.eq_iff first second).mp same
      rw [if_pos differs]
      exact iff_of_false differs fun whole => same (List.cons.inj whole).1

theorem lexicographic_flip : ∀ firsts seconds : List Item,
    lexicographic compare firsts seconds < 0 ↔ 0 < lexicographic compare seconds firsts
  | [], [] => by simp [lexicographic]
  | [], _ :: _ => by simp [lexicographic]
  | _ :: _, [] => by simp [lexicographic]
  | first :: firsts, second :: seconds => by
    rw [lexicographic, lexicographic]
    by_cases same : first = second
    · subst same
      rw [if_neg (not_not_intro (order.self first)), if_neg (not_not_intro (order.self first)),
        lexicographic_flip firsts seconds]
    · rw [if_pos (mt (order.eq_iff first second).mp same),
        if_pos fun zero => same ((order.eq_iff second first).mp zero).symm, order.flip]

theorem lexicographic_trans : ∀ firsts seconds thirds : List Item,
    lexicographic compare firsts seconds ≤ 0 → lexicographic compare seconds thirds ≤ 0 →
      lexicographic compare firsts thirds ≤ 0
  | [], _, [] => by simp [lexicographic]
  | [], _, _ :: _ => by simp [lexicographic]
  | _ :: _, [], _ => by simp [lexicographic]
  | _ :: _, _ :: _, [] => by simp [lexicographic]
  | first :: firsts, second :: seconds, third :: thirds => by
    rw [lexicographic, lexicographic, lexicographic]
    by_cases same : first = second
    · subst same
      rw [if_neg (not_not_intro (order.self first))]
      by_cases same' : first = third
      · subst same'
        rw [if_neg (not_not_intro (order.self first)), if_neg (not_not_intro (order.self first))]
        exact lexicographic_trans firsts seconds thirds
      · rw [if_pos (mt (order.eq_iff first third).mp same'),
          if_pos (mt (order.eq_iff first third).mp same')]
        exact fun _ next => next
    · have differs := mt (order.eq_iff first second).mp same
      rw [if_pos differs]
      intro atMost next
      have below : compare first second < 0 := by omega
      have atMost' : compare second third ≤ 0 := by
        by_cases same' : second = third
        · exact Int.le_of_eq ((order.eq_iff second third).mpr same')
        · rwa [if_pos (mt (order.eq_iff second third).mp same')] at next
      have result := order.lt_of_lt_of_le below atMost'
      rw [if_pos (by omega)]
      omega

/-- Lists of ordered items are ordered. -/
theorem IsTotalOrder.lexicographic : IsTotalOrder (lexicographic compare) where
  eq_iff := lexicographic_eq_iff order
  flip := lexicographic_flip order
  trans := lexicographic_trans order

end Lexicographic

/-! ### Common items of sorted lists -/

/-- The list is sorted by the comparison. -/
def Sorted (compare : Item → Item → Int) (items : List Item) : Prop :=
  items.Pairwise fun first second => compare first second ≤ 0

/-- One pass over both lists: items of the second list that are below the present item of the
first one are passed for good. -/
def meet (compare : Item → Item → Int) : List Item → List Item → Bool
  | [], _ => false
  | item :: items, others =>
    match others.dropWhile fun other => compare item other > 0 with
    | [] => false
    | other :: rest => if compare item other = 0 then true else meet compare items (other :: rest)

section Meet

variable {compare : Item → Item → Int} (order : IsTotalOrder compare)

include order

/-- What is passed over is below every item to come. -/
theorem mem_dropWhile_iff {item : Item} {items others : List Item}
    (sorted : Sorted compare (item :: items)) {common : Item} (later : common ∈ item :: items) :
    common ∈ others.dropWhile (fun other => compare item other > 0) ↔ common ∈ others := by
  refine ⟨fun isRest => (List.dropWhile_sublist _).subset isRest, fun isOther => ?_⟩
  have atLeast : compare item common ≤ 0 := by
    rcases List.mem_cons.mp later with rfl | isItem
    · exact Int.le_of_eq (order.self common)
    · exact (List.pairwise_cons.mp sorted).1 common isItem
  induction others with
  | nil => exact isOther
  | cons other others inductionHypothesis =>
    rw [List.dropWhile_cons]
    split
    · next passed =>
      rcases List.mem_cons.mp isOther with rfl | isRest
      · exact absurd (of_decide_eq_true passed) (by omega)
      · exact inductionHypothesis isRest
    · exact isOther

/-- The pass finds a common item exactly if there is one. -/
theorem meet_iff {items others : List Item} (sorted : Sorted compare items)
    (sorted' : Sorted compare others) :
    meet compare items others = true ↔ ∃ common, common ∈ items ∧ common ∈ others := by
  induction items generalizing others with
  | nil => simp [meet]
  | cons item items inductionHypothesis =>
    have passes := fun common =>
      @mem_dropWhile_iff Item compare order item items others sorted common
    have sorted'' : Sorted compare (others.dropWhile fun other => compare item other > 0) :=
      sorted'.sublist (List.dropWhile_sublist _)
    have stops := @List.head?_dropWhile_not Item (fun other => compare item other > 0) others
    have shrinks : (∃ common, common ∈ item :: items ∧ common ∈ others) ↔
        ∃ common, common ∈ item :: items ∧
          common ∈ others.dropWhile fun other => compare item other > 0 :=
      exists_congr fun common => and_congr_right fun later => (passes common later).symm
    rw [shrinks]
    unfold meet
    cases rests : others.dropWhile fun other => compare item other > 0 with
    | nil => simp
    | cons other rest =>
      rw [rests] at sorted'' stops
      have atMost : compare item other ≤ 0 := by simpa using stops
      dsimp only
      by_cases same : compare item other = 0
      · rw [if_pos same, (order.eq_iff item other).mp same]
        exact iff_of_true rfl ⟨other, List.mem_cons_self, List.mem_cons_self⟩
      · -- The item is below all that is left of the second list, so it is not one of them.
        have missing : item ∉ other :: rest := by
          intro isRest
          have later : compare other item ≤ 0 := by
            rcases List.mem_cons.mp isRest with rfl | isRest
            · exact Int.le_of_eq (order.self item)
            · exact (List.pairwise_cons.mp sorted'').1 item isRest
          have below := order.lt_of_lt_of_le (by omega : compare item other < 0) later
          have zero := order.self item
          omega
        rw [if_neg same, inductionHypothesis (List.pairwise_cons.mp sorted).2 sorted'']
        refine exists_congr fun common => and_congr_left fun isRest => ?_
        rw [List.mem_cons, or_iff_right]
        rintro rfl
        exact missing isRest

end Meet

end Comparison
