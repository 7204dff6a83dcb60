/-
This file models how `doDiffInternal` trims a change of windows to a change of
words, and proves that a valid script for the windows is trimmed to a valid
script for the words.

A run of equal windows covers more words than windows: the words of the first
window reach back over the end of the change before. So much of that change is
trimmed, and the word after a trimmed change is again covered by an equal window.
At the two ends of the sequences the windows tell their places, which keeps the
trimmed changes inside.
-/

import Dwdiff.Context
import Dwdiff.Diff.TwoFiles

namespace Dwdiff

open Diff Window

variable {old new equivs0 equivs1 : List Nat} {context equivMax : Nat} {i j : Int}
  {script : List Change} {change : Change}

/-- The commands of `doDiffInternal`. -/
inductive Command where
  | add
  | del
  | change
  deriving DecidableEq, Repr

/-- The command a change starts with. -/
def commandOf (change : Change) : Command :=
  if change.inserted = 0 then .del else if change.deleted = 0 then .add else .change

/-- The trimming in `doDiffInternal`. A change that stays a change is printed as it is when
changes are aggregated; otherwise it is the range of the recursive call. -/
def trimChange (context : Nat) (change : Change) : Except Failure (Command × Change) :=
  match commandOf change with
  | .change =>
    if change.deleted ≤ context ∨ change.inserted ≤ context then do
      assert (change.deleted != change.inserted) "script->deleted != script->inserted"
      if change.deleted < change.inserted then
        .ok (.add, { change with inserted := change.inserted - change.deleted })
      else
        .ok (.del, { change with deleted := change.deleted - change.inserted })
    else
      .ok (.change, { change with
        deleted := change.deleted - context, inserted := change.inserted - context })
  | command => .ok (command, change)

/-- The words that a command replaces: an addition deletes nothing, whatever the change says. -/
def wordChange : Command → Change → Change
  | .add, change => { change with deleted := 0 }
  | .del, change => { change with inserted := 0 }
  | .change, change => change

/-- The script for the words. -/
def trimScript (context : Nat) : List Change → Except Failure (List Change)
  | [] => .ok []
  | change :: rest => do
    let (command, change) ← trimChange context change
    let rest ← trimScript context rest
    .ok (wordChange command change :: rest)

/-- What is taken from both sides of a change. -/
def overlapOf (context : Int) (change : Change) : Int :=
  min (min change.deleted change.inserted) context

/-- A change of windows as a change of words. -/
def shrink (context : Int) (change : Change) : Change :=
  { change with
    deleted := change.deleted - overlapOf context change
    inserted := change.inserted - overlapOf context change }

/-- A change that the trimming accepts. -/
def Proper (context : Int) (change : Change) : Prop :=
  ¬ (change.deleted = change.inserted ∧ change.deleted ≤ context)

instance (context : Int) (change : Change) : Decidable (Proper context change) :=
  inferInstanceAs (Decidable (¬ _))

/-- The three cases of the trimming take the same from both sides. -/
theorem trimChange_eq (deleted : 0 ≤ change.deleted) (inserted : 0 ≤ change.inserted)
    (proper : Proper context change) :
    ∃ command trimmed, trimChange context change = .ok (command, trimmed) ∧
      wordChange command trimmed = shrink context change := by
  obtain ⟨line0, line1, d, k⟩ := change
  unfold Proper at proper
  dsimp only at deleted inserted proper
  unfold trimChange commandOf shrink overlapOf
  dsimp only
  by_cases noInsertion : k = 0
  · subst noInsertion
    rw [if_pos rfl]
    refine ⟨.del, _, rfl, ?_⟩
    simp only [wordChange, Change.mk.injEq, true_and]
    omega
  · rw [if_neg noInsertion]
    by_cases noDeletion : d = 0
    · subst noDeletion
      rw [if_pos rfl]
      refine ⟨.add, _, rfl, ?_⟩
      simp only [wordChange, Change.mk.injEq, true_and]
      omega
    · rw [if_neg noDeletion]
      dsimp only
      by_cases short : d ≤ context ∨ k ≤ context
      · rw [if_pos short, assert_true (bne_iff_ne.mpr (by omega)), ok_bind]
        by_cases less : d < k
        · rw [if_pos less]
          refine ⟨.add, _, rfl, ?_⟩
          simp only [wordChange, Change.mk.injEq, true_and]
          omega
        · rw [if_neg less]
          refine ⟨.del, _, rfl, ?_⟩
          simp only [wordChange, Change.mk.injEq, true_and]
          omega
      · rw [if_neg short]
        refine ⟨.change, _, rfl, ?_⟩
        simp only [wordChange, Change.mk.injEq, true_and]
        omega

theorem trimScript_eq (nonneg : ∀ change ∈ script, 0 ≤ change.deleted ∧ 0 ≤ change.inserted)
    (proper : ∀ change ∈ script, Proper context change) :
    trimScript context script = .ok (script.map (shrink context)) := by
  induction script with
  | nil => rfl
  | cons change rest inductionHypothesis =>
    obtain ⟨command, trimmed, trims, words⟩ := trimChange_eq (nonneg change List.mem_cons_self).1
      (nonneg change List.mem_cons_self).2 (proper change List.mem_cons_self)
    have tail := inductionHypothesis
      (fun other isOne => nonneg other (List.mem_cons_of_mem _ isOne))
      fun other isOne => proper other (List.mem_cons_of_mem _ isOne)
    rw [trimScript, trims, ok_bind]
    dsimp only
    rw [tail, ok_bind, words, List.map_cons]

/-! ### From windows to words -/

section Overlap

variable {old new : List Nat} {context : Int} {equivs0 equivs1 : Int → Nat}

/-- Equal codes stand for windows that agree. -/
def Reflects (old new : List Nat) (context : Int) (equivs0 equivs1 : Int → Nat) : Prop :=
  ∀ p q, 0 ≤ p → p < old.length + context → 0 ≤ q → q < new.length + context →
    equivs0 p = equivs1 q → Agree (padded old) (padded new) context p q

/-- A non-empty run of equal windows covers the words of its first window as well. -/
theorem sameOn_words {length overlap : Int} (same : SameOn equivs0 equivs1 i j length)
    (reflects : Reflects old new context equivs0 equivs1) (low0 : 0 ≤ i) (low1 : 0 ≤ j)
    (high0 : i + length ≤ old.length + context) (high1 : j + length ≤ new.length + context)
    (positive : 0 < length) (nonneg : 0 ≤ overlap) (covered : overlap ≤ context) :
    SameOn (padded old) (padded new) (i - overlap) (j - overlap) (length + overlap) := by
  intro k low high
  by_cases behind : k < overlap
  · have agree := reflects i j low0 (by omega) low1 (by omega)
      (by simpa using same 0 le_rfl positive)
    have word := agree (overlap - k) (by omega) (by omega)
    rwa [show i - (overlap - k) = i - overlap + k by ring,
      show j - (overlap - k) = j - overlap + k by ring] at word
  · have agree := reflects (i + (k - overlap)) (j + (k - overlap)) (by omega) (by omega) (by omega)
      (by omega) (same (k - overlap) (by omega) (by omega))
    have word := agree 0 le_rfl (by omega)
    rwa [sub_zero, sub_zero, show i + (k - overlap) = i - overlap + k by ring,
      show j + (k - overlap) = j - overlap + k by ring] at word

/-- Behind a change of windows there is an agreement, or both sequences end. -/
theorem agree_or_end {rest : List Change}
    (isMatch : Matches equivs0 equivs1 (old.length + context) (new.length + context) i j rest)
    (separated : Separated 1 i rest) (reflects : Reflects old new context equivs0 equivs1)
    (low0 : 0 ≤ i) (low1 : 0 ≤ j) :
    (i = old.length + context ∧ j = new.length + context) ∨
      (i < old.length + context ∧ j < new.length + context ∧
        Agree (padded old) (padded new) context i j) := by
  have bounds := isMatch.bounds
  cases rest with
  | nil =>
    obtain ⟨nonneg, lengths, same⟩ := isMatch
    rcases Int.lt_or_eq_of_le nonneg with positive | empty
    · exact Or.inr ⟨by omega, by omega, reflects i j low0 (by omega) low1 (by omega)
        (by simpa using same 0 le_rfl positive)⟩
    · exact Or.inl (by omega)
  | cons change rest =>
    obtain ⟨le, lengths, same, deleted, inserted, tail⟩ := isMatch
    have bounds' := tail.bounds
    have apart := separated.1
    exact Or.inr ⟨by omega, by omega, reflects i j low0 (by omega) low1 (by omega)
      (by simpa using same 0 le_rfl (by omega))⟩

/-- The windows before a change and behind it are the same. -/
def Framing (old new : List Nat) (context : Int) (change : Change) : Prop :=
  ((change.line0 = 0 ∧ change.line1 = 0) ∨
    Agree (padded old) (padded new) context (change.line0 - 1) (change.line1 - 1)) ∧
  ((change.line0 + change.deleted = old.length + context ∧
      change.line1 + change.inserted = new.length + context) ∨
    (change.line0 + change.deleted < old.length + context ∧
      change.line1 + change.inserted < new.length + context ∧
      Agree (padded old) (padded new) context (change.line0 + change.deleted)
        (change.line1 + change.inserted)))

/-- What stands around a change of a script. -/
theorem around_change (reflects : Reflects old new context equivs0 equivs1) {least : Int}
    {rest : List Change}
    (isMatch : Matches equivs0 equivs1 (old.length + context) (new.length + context) i j
      (change :: rest)) (separated : Separated least i (change :: rest)) (low0 : 0 ≤ i)
    (low1 : 0 ≤ j) (onset : least = 1 ∨ (i = 0 ∧ j = 0)) : Framing old new context change := by
  obtain ⟨le, lengths, same, deleted, inserted, tail⟩ := isMatch
  obtain ⟨apart, -, separatedTail⟩ := separated
  have bounds := tail.bounds
  refine ⟨?_, agree_or_end tail separatedTail reflects (by omega) (by omega)⟩
  rcases Int.lt_or_eq_of_le le with positive | empty
  · refine Or.inr (reflects _ _ (by omega) (by omega) (by omega) (by omega) ?_)
    have last := same (change.line0 - i - 1) (by omega) (by omega)
    rwa [show i + (change.line0 - i - 1) = change.line0 - 1 by ring,
      show j + (change.line0 - i - 1) = change.line1 - 1 by omega] at last
  · exact Or.inl (by omega)

/-- A shrunken change does not reach over the ends of the sequences. -/
theorem shrink_inside (wide : 0 < context) (fits0 : context ≤ old.length)
    (fits1 : context ≤ new.length) (deleted : 0 ≤ change.deleted) (inserted : 0 ≤ change.inserted)
    (proper : Proper context change) (framing : Framing old new context change)
    (high0 : change.line0 + change.deleted ≤ old.length + context)
    (high1 : change.line1 + change.inserted ≤ new.length + context) :
    change.line0 + (shrink context change).deleted ≤ old.length ∧
      change.line1 + (shrink context change).inserted ≤ new.length := by
  obtain ⟨before, after⟩ := framing
  obtain ⟨line0, line1, d, k⟩ := change
  unfold Proper at proper
  unfold shrink overlapOf
  dsimp only at *
  -- Windows over the end of either sequence agree only at the same distance from it.
  have balanced : ∀ p q, Agree (padded old) (padded new) context p q →
      p < old.length + context → q < new.length + context →
      old.length ≤ p ∨ new.length ≤ q → p - old.length = q - new.length := by
    rintro p q agree near0 near1 (past | past)
    · exact agree.balanced (by omega) past near0
    · exact (agree.symm.balanced (by omega) past near1).symm
  have ahead : old.length < line0 ∨ new.length < line1 →
      line0 - old.length = line1 - new.length := by
    intro beyond
    rcases before with start | agree
    · omega
    · have := balanced _ _ agree (by omega) (by omega) (by omega)
      omega
  have behind : old.length ≤ line0 + d ∨ new.length ≤ line1 + k →
      line0 + d - old.length = line1 + k - new.length := by
    intro beyond
    rcases after with ends | ⟨near0, near1, agree⟩
    · omega
    · exact balanced _ _ agree near0 near1 beyond
  omega

/-- A valid script for the windows is shrunk to a valid script for the words. The induction is
on the script; `overlap` is what was taken from the change before. -/
theorem shrink_matches (wide : 0 < context) (fits0 : context ≤ old.length)
    (fits1 : context ≤ new.length) (reflects : Reflects old new context equivs0 equivs1) :
    ∀ {script : List Change} {least i j overlap : Int},
      Matches equivs0 equivs1 (old.length + context) (new.length + context) i j script →
      Separated least i script → (∀ change ∈ script, Proper context change) →
      0 ≤ i → 0 ≤ j → 0 ≤ overlap → overlap ≤ context →
      (least = 1 ∨ (i = 0 ∧ j = 0 ∧ overlap = 0 ∧ 0 ≤ least)) →
      i - overlap ≤ old.length → j - overlap ≤ new.length →
      Matches (padded old) (padded new) old.length new.length (i - overlap) (j - overlap)
        (script.map (shrink context)) := by
  intro script
  induction script with
  | nil =>
    intro least i j overlap isMatch separated proper low0 low1 nonneg covered onset high0 high1
    have lengths := isMatch.2.1
    refine ⟨by omega, by omega, ?_⟩
    rcases Int.lt_or_eq_of_le isMatch.1 with positive | empty
    · have words := sameOn_words isMatch.2.2 reflects low0 low1 (by omega) (by omega) positive
        nonneg covered
      intro k low high
      exact words k low (by omega)
    · intro k low high
      omega
  | cons change rest inductionHypothesis =>
    intro least i j overlap isMatch separated proper low0 low1 nonneg covered onset high0 high1
    have framing := around_change reflects isMatch separated low0 low1 (by omega)
    obtain ⟨le, lengths, same, deleted, inserted, tail⟩ := isMatch
    obtain ⟨apart, -, separatedTail⟩ := separated
    have bounds := tail.bounds
    have isProper := proper change List.mem_cons_self
    have run : SameOn (padded old) (padded new) (i - overlap) (j - overlap)
        (change.line0 - (i - overlap)) := by
      rcases Int.lt_or_eq_of_le le with positive | empty
      · have words := sameOn_words same reflects low0 low1 (by omega) (by omega) (by omega) nonneg
          covered
        intro k low high
        exact words k low (by omega)
      · intro k low high
        omega
    have inside := shrink_inside wide fits0 fits1 deleted inserted isProper framing bounds.1
      bounds.2
    have rest := @inductionHypothesis 1 (change.line0 + change.deleted)
      (change.line1 + change.inserted) (overlapOf context change) tail separatedTail
      (fun other isOne => proper other (List.mem_cons_of_mem change isOne)) (by omega) (by omega)
      (by unfold overlapOf; omega) (by unfold overlapOf; omega) (Or.inl rfl)
      (by rw [add_sub_assoc]; exact inside.1) (by rw [add_sub_assoc]; exact inside.2)
    rw [List.map_cons]
    refine ⟨by show i - overlap ≤ change.line0; omega, ?_, run, ?_, ?_, ?_⟩
    · show change.line0 - (i - overlap) = change.line1 - (j - overlap)
      omega
    · show 0 ≤ change.deleted - overlapOf context change
      unfold overlapOf
      omega
    · show 0 ≤ change.inserted - overlapOf context change
      unfold overlapOf
      omega
    · rw [add_sub_assoc, add_sub_assoc] at rest
      exact rest

/-! ### Changes that the trimming refuses -/

/-- The windows of a change that the trimming refuses are pairwise the same: the windows around the
change cover all its words. -/
theorem improper_agree (improper : ¬ Proper context change)
    (framing : Framing old new context change) {k : Int} (low : 0 ≤ k) (high : k < change.deleted) :
    Agree (padded old) (padded new) context (change.line0 + k) (change.line1 + k) := by
  obtain ⟨before, after⟩ := framing
  obtain ⟨same, short⟩ := not_not.mp improper
  have outside : ∀ (words : List Nat) (place : Int), place < 0 ∨ (words.length : Int) ≤ place →
      padded words place = -1 := fun words place out => if_neg (by omega)
  intro back least most
  rcases lt_or_ge k back with ahead | behind
  · rcases before with ⟨start0, start1⟩ | agree
    · rw [outside old _ (Or.inl (by omega)), outside new _ (Or.inl (by omega))]
    · have word := agree (back - k - 1) (by omega) (by omega)
      rwa [show change.line0 - 1 - (back - k - 1) = change.line0 + k - back by ring,
        show change.line1 - 1 - (back - k - 1) = change.line1 + k - back by ring] at word
  · rcases after with ⟨end0, end1⟩ | ⟨-, -, agree⟩
    · rw [outside old _ (Or.inr (by omega)), outside new _ (Or.inr (by omega))]
    · have word := agree (change.deleted - k + back) (by omega) (by omega)
      rwa [show change.line0 + change.deleted - (change.deleted - k + back) =
          change.line0 + k - back by ring,
        show change.line1 + change.inserted - (change.deleted - k + back) =
          change.line1 + k - back by omega] at word

/-- The script without the changes that the trimming refuses. -/
def properOnly (context : Int) (script : List Change) : List Change :=
  script.filter fun change => Proper context change

theorem properOnly_eq (proper : ∀ change ∈ script, Proper context change) :
    properOnly context script = script :=
  List.filter_eq_self.mpr fun change isOne => decide_eq_true (proper change isOne)

/-- Leaving these changes out gives a valid script again. The induction is on the script, as in
`shrink_matches`. -/
theorem properOnly_matches (reflects : Reflects old new context equivs0 equivs1)
    (complete : ∀ p q, 0 ≤ p → p < old.length + context → 0 ≤ q → q < new.length + context →
      Agree (padded old) (padded new) context p q → equivs0 p = equivs1 q) :
    ∀ {script : List Change} {least i j : Int},
      Matches equivs0 equivs1 (old.length + context) (new.length + context) i j script →
      Separated least i script → 0 ≤ i → 0 ≤ j → (least = 1 ∨ (i = 0 ∧ j = 0 ∧ 0 ≤ least)) →
      Matches equivs0 equivs1 (old.length + context) (new.length + context) i j
        (properOnly context script) ∧ Separated least i (properOnly context script) := by
  intro script
  induction script with
  | nil => exact fun isMatch separated _ _ _ => ⟨isMatch, separated⟩
  | cons change rest inductionHypothesis =>
    intro least i j isMatch separated low0 low1 onset
    have framing := around_change reflects isMatch separated low0 low1 (by omega)
    obtain ⟨le, lengths, same, deleted, inserted, tail⟩ := isMatch
    obtain ⟨apart, something, separatedTail⟩ := separated
    have bounds := tail.bounds
    obtain ⟨tail', separated'⟩ := inductionHypothesis tail separatedTail (by omega) (by omega)
      (Or.inl rfl)
    unfold properOnly
    by_cases proper : Proper context change
    · rw [List.filter_cons, if_pos (decide_eq_true proper)]
      exact ⟨⟨le, lengths, same, deleted, inserted, tail'⟩, apart, something, separated'⟩
    · rw [List.filter_cons, if_neg (by simpa using proper)]
      have sizes := (not_not.mp proper).1
      have inside : SameOn equivs0 equivs1 change.line0 change.line1
          (change.line0 + change.deleted - change.line0) := fun k low high =>
        complete _ _ (by omega) (by omega) (by omega) (by omega)
          (improper_agree proper framing low (by omega))
      exact ⟨(tail'.prepend (by omega) (by omega) inside).prepend le lengths same,
        separated'.mono (by omega)⟩

end Overlap

/-! ### Scripts for the words -/

theorem codeAt_of_padded {words : List Nat} {place : Int} (low : 0 ≤ place)
    (high : place < words.length) : padded words place = codeAt words place := by
  rw [padded, if_pos ⟨low, high⟩, codeAt]

/-- Inside the sequences nothing depends on how they are continued. -/
theorem matches_codeAt
    (isMatch : Matches (padded old) (padded new) old.length new.length i j script) (low0 : 0 ≤ i)
    (low1 : 0 ≤ j) : Matches (codeAt old) (codeAt new) old.length new.length i j script := by
  have words : ∀ {i j length : Int}, 0 ≤ i → 0 ≤ j → i + length ≤ old.length →
      j + length ≤ new.length → SameOn (padded old) (padded new) i j length →
      SameOn (codeAt old) (codeAt new) i j length :=
    fun low0 low1 high0 high1 same k low high => by
      have equal := same k low high
      rw [codeAt_of_padded (by omega) (by omega), codeAt_of_padded (by omega) (by omega)] at equal
      exact Nat.cast_injective equal
  induction script generalizing i j with
  | nil =>
    obtain ⟨le, lengths, same⟩ := isMatch
    exact ⟨le, lengths, words low0 low1 (by omega) (by omega) same⟩
  | cons change rest inductionHypothesis =>
    obtain ⟨le, lengths, same, deleted, inserted, tail⟩ := isMatch
    have bounds := tail.bounds
    exact ⟨le, lengths, words low0 low1 (by omega) (by omega) same, deleted, inserted,
      inductionHypothesis tail (by omega) (by omega)⟩

theorem Windowed.reflects (windowed : Windowed old new context equivs0 equivs1 equivMax) :
    Reflects old new context (codeAt equivs0) (codeAt equivs1) :=
  fun p q low0 high0 low1 high1 same => (windowed.same p q low0 high0 low1 high1).mp same

/-- A valid script for the windows gives a valid script for the words, when the changes that the
trimming refuses are left out. -/
theorem Windowed.words (windowed : Windowed old new context equivs0 equivs1 equivMax)
    (wide : 0 < context) (fits0 : context ≤ old.length) (fits1 : context ≤ new.length)
    (isMatch : Matches (codeAt equivs0) (codeAt equivs1) equivs0.length equivs1.length 0 0 script)
    (separated : Separated 0 0 script) :
    Matches (codeAt old) (codeAt new) old.length new.length 0 0
      ((properOnly context script).map (shrink context)) := by
  rw [windowed.length0, windowed.length1, Nat.cast_add, Nat.cast_add] at isMatch
  obtain ⟨isMatch', separated'⟩ := properOnly_matches windowed.reflects
    (fun p q low0 high0 low1 high1 => (windowed.same p q low0 high0 low1 high1).mpr) isMatch
    separated le_rfl le_rfl (Or.inr ⟨rfl, rfl, le_rfl⟩)
  have words := shrink_matches (by omega) (by omega) (by omega) windowed.reflects isMatch'
    separated' (fun change isOne => of_decide_eq_true (List.mem_filter.mp isOne).2) le_rfl le_rfl
    le_rfl (by omega) (Or.inr ⟨rfl, rfl, rfl, le_rfl⟩) (by omega) (by omega)
  exact matches_codeAt words le_rfl le_rfl

/-- A valid script for the windows is trimmed to a valid script for the words. -/
theorem Windowed.trimScript (windowed : Windowed old new context equivs0 equivs1 equivMax)
    (wide : 0 < context) (fits0 : context ≤ old.length) (fits1 : context ≤ new.length)
    (isMatch : Matches (codeAt equivs0) (codeAt equivs1) equivs0.length equivs1.length 0 0 script)
    (separated : Separated 0 0 script) (proper : ∀ change ∈ script, Proper context change) :
    Dwdiff.trimScript context script = .ok (script.map (shrink context)) ∧
      Matches (codeAt old) (codeAt new) old.length new.length 0 0
        (script.map (shrink context)) := by
  refine ⟨trimScript_eq isMatch.nonneg proper, ?_⟩
  have words := windowed.words wide fits0 fits1 isMatch separated
  rwa [properOnly_eq proper] at words

/-- Matching with context is sound. A change that is empty on both sides is not proper, so the
scripts are all those that separate their changes by an unchanged window. -/
theorem trimScript_valid {old new : List Nat} (bounded0 : ∀ word ∈ old, word ≤ valueMax)
    (bounded1 : ∀ word ∈ new, word ≤ valueMax) (addressable : Addressable old new) {context : Nat}
    (wide : 0 < context) (fits0 : context ≤ old.length) (fits1 : context ≤ new.length)
    {equivs0 equivs1 : List Nat} {table0 table1 : Hashtable}
    (calls0 : initializeContextDiffTokens Hashtable.empty old none context =
      .ok (equivs0, table0))
    (calls1 : initializeContextDiffTokens table0 new none context = .ok (equivs1, table1))
    {script : List Change}
    (isMatch : Matches (codeAt equivs0) (codeAt equivs1) equivs0.length equivs1.length 0 0 script)
    (separated : Separated 0 0 script) (proper : ∀ change ∈ script, Proper context change) :
    ∃ words, trimScript context script = .ok words ∧
      Matches (codeAt old) (codeAt new) old.length new.length 0 0 words := by
  have room : 2 * (old.length + new.length) ≤ valueMax := by
    unfold Addressable at addressable
    unfold valueMax
    omega
  obtain ⟨codes0, after0, codes1, after1, total0, total1, windowed⟩ :=
    @contextDiffTokens_total old new none none 0 old.length 0 new.length rfl rfl le_rfl
      (by omega) le_rfl (by omega) context wide (by omega) (by omega) bounded0 bounded1 room
  obtain ⟨rfl, rfl⟩ := Prod.mk.inj (Except.ok.inj (calls0.symm.trans total0))
  obtain ⟨rfl, rfl⟩ := Prod.mk.inj (Except.ok.inj (calls1.symm.trans total1))
  rw [sliceOf_whole, sliceOf_whole] at windowed
  exact ⟨_, windowed.trimScript wide fits0 fits1 isMatch separated proper⟩

theorem trimScript_valid_deletion :
    ∃ equivs0 table0 equivs1 table1,
      initializeContextDiffTokens Hashtable.empty [3, 4, 5] none 2 = .ok (equivs0, table0) ∧
      initializeContextDiffTokens table0 [3, 5] none 2 = .ok (equivs1, table1) ∧
      Matches (codeAt equivs0) (codeAt equivs1) 5 4 0 0 [⟨1, 1, 3, 2⟩] ∧
      ∃ words, trimScript 2 [⟨1, 1, 3, 2⟩] = .ok words ∧
        Matches (codeAt [3, 4, 5]) (codeAt [3, 5]) 3 2 0 0 words := by
  have isMatch : Matches (codeAt [0, 1, 2, 3, 4]) (codeAt [0, 5, 6, 4]) 5 4 0 0 [⟨1, 1, 3, 2⟩] := by
    decide
  exact ⟨[0, 1, 2, 3, 4], _, [0, 5, 6, 4], _, rfl, rfl, isMatch,
    trimScript_valid (by decide) (by decide) (by decide) (by decide) (by decide) (by decide) rfl rfl
      isMatch (by decide) (by decide)⟩

end Dwdiff
