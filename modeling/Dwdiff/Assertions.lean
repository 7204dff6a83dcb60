/-
This file is about the assertions of `doDiff.c` that concern the script. The two
about the positions in the files always hold. The one about the trimming says that
a short change never replaces words by as many words, and that depends on the
engine: it holds for the scripts of searches that did not give up, and there are
inputs on which it fails.
-/

import Dwdiff.Control
import Dwdiff.Diff.GivingUp

namespace Dwdiff

open Diff Interning Outcome Selection Window

/-! ### Searches that do not give up -/

section Accepted

variable {options : Options} {locale : Locale} {old new : List Nat} {hashMax : Nat}

/-- When no search of the engine has given up, the trimming accepts the script: the windows of a
change that it refuses would agree one by one. -/
theorem Compares.proper {minimal : Bool} {context : Nat} {comparing : Comparing}
    (compares : Compares minimal old new context comparing)
    (all : ∀ part ∈ comparing.splits, part.Minimal) :
    ∀ change ∈ comparing.script, Proper context change := by
  intro change isOne
  by_contra improper
  obtain ⟨equivs0, equivs1, equivMax, discards0, discards1, changed0, changed1, windowed,
    explained⟩ := compares
  have length0 := windowed.length0
  have length1 := windowed.length1
  have sizes := (not_not.mp improper).1
  have something := explained.separated.something change isOne
  obtain ⟨before, rest, isScript⟩ := List.append_of_mem isOne
  have whole : Remains (codeAt equivs0) (codeAt equivs1) equivs0.length equivs1.length changed0
      changed1 0 0 comparing.script :=
    ⟨le_rfl, le_rfl, explained.isMatch, ⟨0, explained.separated, Or.inr ⟨rfl, rfl⟩⟩,
      explained.spells, by rw [count_of_le _ le_rfl, count_of_le _ le_rfl]⟩
  rw [isScript] at whole
  obtain ⟨i, j, remains⟩ := whole.drop
  refine explained.differs all remains (by omega) sizes fun k low high => ?_
  obtain ⟨low0, low1, isMatch, ⟨least, separated, onset⟩, -, -⟩ := remains
  obtain ⟨le0, le1, -, -, high0, high1⟩ := isMatch.inside change List.mem_cons_self
  rw [length0, length1] at isMatch
  push_cast at isMatch
  have framing := around_change windowed.reflects isMatch separated low0 low1 onset
  exact (windowed.same _ _ (by omega) (by omega) (by omega) (by omega)).mpr
    (improper_agree improper framing low high)

/-- No search gives up in a call and in the calls that this one makes. -/
def Thorough (options : Options) (hashMax : Nat) (old new : List Nat) :
    Nat → Option Range → Nat → Prop
  | 0, _, _ => True
  | depth + 1, baseRange, context =>
    ∀ context' comparing table,
      compareRange options hashMax old new baseRange context Hashtable.empty =
        .ok (context', comparing, table) →
      (∀ part ∈ comparing.splits, part.Minimal) ∧
        ∀ change ∈ comparing.script, context' ≠ 0 → options.aggregateChanges = false →
          context' < change.deleted → context' < change.inserted →
          Thorough options hashMax old new depth
            (some (rangeOf (shrink context' (inBase baseRange change)))) (context' / 4 * 2)

/-- Without a context, with the slow algorithm, or when no search gives up, every script is
accepted. -/
theorem accepted_of_thorough (fitting : Fitting old new hashMax) :
    ∀ {depth : Nat} {baseRange : Option Range} {range : Range} {context : Nat},
      baseRange.getD (wholeRange old new) = range → range.Inside old new →
      (context = 0 ∨ options.minimal = true ∨
        Thorough options hashMax old new depth baseRange context) →
      Accepted options hashMax old new depth baseRange context := by
  intro depth
  induction depth with
  | zero => exact fun _ _ _ => trivial
  | succ depth inductionHypothesis =>
    intro baseRange range context isRange inside thorough
    obtain ⟨comparing, returns, found, compares⟩ :=
      compareRange_total options fitting isRange inside context
    intro context' comparing' table returns' change isOne
    obtain ⟨rfl, rfl, rfl⟩ : fitContext range context = context' ∧ comparing = comparing' ∧
      Hashtable.empty = table := by simpa using returns.symm.trans returns'
    have proper : Proper (fitContext range context) change := by
      rcases thorough with none | minimal | thorough
      · obtain none' : fitContext range context = 0 := by have := fitContext_le range context; omega
        rw [none']
        exact proper_zero (found.separated.something change isOne)
      · rw [minimal] at compares
        have ⟨_, _, _, _, _, _, _, _, explained⟩ := compares
        exact compares.proper (explained.best rfl) change isOne
      · exact compares.proper (thorough _ _ _ returns).1 change isOne
    refine ⟨proper, fun wide each large0 large1 => ?_⟩
    refine @inductionHypothesis (some _) _ _ rfl (found.inside isRange inside isOne proper) ?_
    rcases thorough with none | minimal | thorough
    · exact absurd (by have := fitContext_le range context; omega) wide
    · exact Or.inr (Or.inl minimal)
    · exact Or.inr (Or.inr ((thorough _ _ _ returns).2 change isOne wide each large0 large1))

/-! ### The assertions of a run -/

/-- The conditions of the assertions in `doDiffInternal`, `initializeContextDiffTokens` and
`printWords`. -/
def diffAssertions : List String :=
  ["script->deleted != script->inserted", "idx == dataRange + context",
    "file->lastPrinted == start"]

theorem Failure.OfPrinting.not_assertion {failure : Failure} (ofPrinting : failure.OfPrinting) :
    ∀ text ∈ diffAssertions, failure ≠ .assertion text := by
  rcases ofPrinting with (rfl | rfl | rfl | rfl) | rfl <;> decide

/-- No assertion fails without a context, with the slow algorithm, and whenever no search of the
engine gives up, in the call and in the calls that this one makes. The positions in the files are
counted in an `int`. -/
theorem doDiff_asserts {state : Printing}
    (small : ∀ side, ∀ word ∈ (state.file side).diffTokens, word < state.baseHashMax)
    (hashMax : state.baseHashMax ≤ valueMax)
    (few : ∀ side, (state.file side).diffTokens.length < 2 ^ 31)
    (table : state.hashtable = Hashtable.empty)
    (thorough : options.matchContext = 0 ∨ options.minimal = true ∨
      Thorough options state.baseHashMax state.oldFile.diffTokens state.newFile.diffTokens
        (options.matchContext + 1) none options.matchContext) :
    ∀ text ∈ diffAssertions, doDiff options locale state ≠ .error (.assertion text) := by
  have few0 : state.oldFile.diffTokens.length < 2 ^ 31 := few .old
  have few1 : state.newFile.diffTokens.length < 2 ^ 31 := few .new
  have fitting : Fitting state.oldFile.diffTokens state.newFile.diffTokens state.baseHashMax :=
    ⟨small .old, small .new, hashMax, by omega⟩
  intro text isText raises
  have accepted := @accepted_of_thorough options _ _ _ fitting _ none _ _ rfl
    (wholeRange_inside _ _) thorough
  have meets := @doDiff_steered options locale _ _ False Failure.OfPrinting state fitting
    ⟨rfl, rfl⟩ table False.elim (fun _ => id) (Or.inr accepted)
  rw [raises] at meets
  exact Failure.OfPrinting.not_assertion meets text isText rfl

end Accepted

/-! ### An input on which the trimming fails -/

/-- The numbers of the words `a a b b b b a a a`. -/
def repeatedOld : List Nat := [0, 0, 1, 1, 1, 1, 0, 0, 0]

/-- The numbers of 257 times `a`, then `b b a a a b b b b`, then 260 times `a`. -/
def repeatedNew : List Nat :=
  List.replicate 257 0 ++ ([1, 1, 0, 0, 0, 1, 1, 1, 1] ++ List.replicate 260 0)

/-- Their windows of three words, in the order in which they come. -/
def repeatedGrams : List (List Int) :=
  [[-1, 0], [-1, 0, 0], [0, 0, 1], [0, 1, 1], [1, 1, 1], [1, 1, 0], [1, 0, 0], [0, 0, 0],
    [0, 0, -1], [0, -1]]

/-- All but two windows at either end lie inside the words. -/
theorem windows_repeatedNew : windows 2 (repeatedNew.map Int.ofNat) 524 =
    ((stutteringNew.drop 2).take 524).map fun code => repeatedGrams.getD code [] := by
  have words : repeatedNew.map Int.ofNat = List.replicate 255 0 ++ (List.replicate 2 0 ++
      ([1, 1, 0, 0, 0, 1, 1, 1, 1] ++ List.replicate 260 0)) := by decide +kernel
  have behind : (List.replicate 260 0 : List Int) =
      List.replicate 258 0 ++ (List.replicate 2 0 ++ []) := by decide +kernel
  have front := windows_append 2 (List.replicate 255 (0 : Int)) (List.replicate 2 0 ++
      ([1, 1, 0, 0, 0, 1, 1, 1, 1] ++ List.replicate 260 0)) (11 + 258)
  have back := windows_append 2 ([0, 0, 1, 1, 0, 0, 0, 1, 1, 1, 1] : List Int)
    (List.replicate 260 0) 258
  have last := windows_replicate 2 258 (0 : Int) []
  rw [← behind] at last
  rw [last] at back
  rw [List.length_replicate, windows_replicate] at front
  rw [words]
  refine front.trans ?_
  refine (congrArg (List.replicate 255 (List.replicate (2 + 1) (0 : Int)) ++ ·) back).trans ?_
  decide +kernel

theorem gramBytes_repeatedNew : gramBytes repeatedNew 2 =
    stutteringNew.map fun code => arrayBytes (repeatedGrams.getD code []) := by
  have inner : (List.range (repeatedNew.length - 2)).map (fun i =>
      arrayBytes (((repeatedNew.map Int.ofNat).drop i).take (2 + 1))) =
      ((stutteringNew.drop 2).take 524).map fun code =>
        arrayBytes (repeatedGrams.getD code []) := by
    rw [show repeatedNew.length - 2 = 524 by decide +kernel]
    have mapped := congrArg (List.map arrayBytes) windows_repeatedNew
    rw [windows, List.map_map, List.map_map] at mapped
    exact mapped
  rw [gramBytes_eq (by decide +kernel), inner]
  decide +kernel

/-- The script for the windows is that of the sequences that stutter. -/
theorem compareRange_repeated : ∃ splits,
    compareRange defaultOptions 2 repeatedOld repeatedNew none 2 Hashtable.empty =
      .ok (2, ⟨[⟨2, 2, 0, 260⟩, ⟨5, 265, 1, 1⟩, ⟨9, 269, 0, 257⟩], splits⟩, Hashtable.empty) := by
  have known : internAll [] (gramBytes repeatedOld 2) = repeatedGrams.map arrayBytes := by
    decide +kernel
  have numbers : (gramBytes repeatedOld 2).map (repeatedGrams.map arrayBytes).idxOf =
      stutteringOld := by decide +kernel
  have places : ∀ code ∈ stutteringNew,
      (repeatedGrams.map arrayBytes).idxOf (arrayBytes (repeatedGrams.getD code [])) = code ∧
      arrayBytes (repeatedGrams.getD code []) ∈ repeatedGrams.map arrayBytes := by
    have each : ∀ code < 10,
        (repeatedGrams.map arrayBytes).idxOf (arrayBytes (repeatedGrams.getD code [])) = code ∧
        arrayBytes (repeatedGrams.getD code []) ∈ repeatedGrams.map arrayBytes := by decide +kernel
    have small : ∀ code ∈ stutteringNew, code < 10 := by decide +kernel
    exact fun code isOne => each code (small code isOne)
  obtain ⟨table0, calls0, interns0⟩ := @initializeContextDiffTokens_eq _ _ Interns.empty repeatedOld
    none 0 repeatedOld.length rfl le_rfl (by simp) 2 (by decide) (by decide +kernel)
  rw [sliceOf_whole, known, numbers] at calls0
  rw [sliceOf_whole, known] at interns0
  obtain ⟨table1, calls1, interns1⟩ := @initializeContextDiffTokens_eq _ _ interns0 repeatedNew
    none 0 repeatedNew.length rfl le_rfl (by simp) 2 (by decide +kernel) (by decide +kernel)
  have stays : internAll (repeatedGrams.map arrayBytes) (gramBytes repeatedNew 2) =
      repeatedGrams.map arrayBytes := by
    refine internAll_known fun data isOne => ?_
    rw [gramBytes_repeatedNew] at isOne
    obtain ⟨code, isCode, rfl⟩ := List.mem_map.mp isOne
    exact (places code isCode).2
  have numbers1 : (gramBytes repeatedNew 2).map (repeatedGrams.map arrayBytes).idxOf =
      stutteringNew := by
    rw [gramBytes_repeatedNew, List.map_map]
    exact (List.map_congr_left fun code isCode => (places code isCode).1).trans (List.map_id _)
  rw [sliceOf_whole, stays, numbers1] at calls1
  rw [sliceOf_whole, stays] at interns1
  obtain ⟨splits, compares⟩ := diff2Files_stuttering
  refine ⟨splits, ?_⟩
  have fits : fitContext (wholeRange repeatedOld repeatedNew) 2 = 2 := by decide +kernel
  have ten : table1.nextValue = 10 := interns1.nextValue.trans (by decide +kernel)
  have found : runEngine defaultOptions table1.nextValue stutteringOld stutteringNew =
      .ok ⟨[⟨2, 2, 0, 260⟩, ⟨5, 265, 1, 1⟩, ⟨9, 269, 0, 257⟩], splits⟩ := by
    rw [ten, runEngine, show defaultOptions.minimal = false from rfl,
      show defaultOptions.speedLargeFiles = false from rfl, compares]
  have called := @compareRange_of_calls defaultOptions repeatedOld repeatedNew 2 none
    (wholeRange repeatedOld repeatedNew) 2 rfl (by rw [fits]; decide) _ _ _ _
    (by rw [fits]; exact calls0) (by rw [fits]; exact calls1) _ found
  rwa [fits] at called

/-- Its second change replaces one window by an equal one, and the run ends there. -/
theorem doDiff_repeated :
    doDiff defaultOptions cLocale (numbersOnly repeatedOld repeatedNew 2) =
      .error (.assertion "script->deleted != script->inserted") := by
  obtain ⟨splits, compares⟩ := compareRange_repeated
  have runs : ∀ state : Printing, state.oldFile.diffTokens = repeatedOld →
      state.newFile.diffTokens = repeatedNew → state.baseHashMax = 2 →
      state.hashtable = Hashtable.empty →
      doDiffInternal defaultOptions cLocale 3 none 2 state = doChanges defaultOptions cLocale
        (fun range => doDiffInternal defaultOptions cLocale 2 (some range)) none 2
        [⟨2, 2, 0, 260⟩, ⟨5, 265, 1, 1⟩, ⟨9, 269, 0, 257⟩] state := by
    intro state isOld isNew isMax isTable
    have called : compareRange defaultOptions state.baseHashMax state.oldFile.diffTokens
        state.newFile.diffTokens none 2 state.hashtable =
        .ok (2, ⟨[⟨2, 2, 0, 260⟩, ⟨5, 265, 1, 1⟩, ⟨9, 269, 0, 257⟩], splits⟩, state.hashtable) := by
      rw [isOld, isNew, isMax, isTable, compares]
    rw [doDiffInternal, called, ok_bind]
    rfl
  obtain ⟨between, first⟩ := @exists_of_toBool _ _ (doChange defaultOptions cLocale
    (fun range => doDiffInternal defaultOptions cLocale 2 (some range)) none 2 ⟨2, 2, 0, 260⟩
    (numbersOnly repeatedOld repeatedNew 2).rewound) (by decide +kernel)
  show (doDiffInternal defaultOptions cLocale 3 none 2 _ >>= _) = _
  rw [runs _ rfl rfl rfl rfl, doChanges, first, ok_bind, doChanges,
    doChange_refuses (by decide) (by decide) (by decide)]
  rfl

/-- With the slow algorithm the same words are compared without a failure. -/
theorem doDiff_asserts_repeated :
    ¬ ∃ text ∈ diffAssertions, doDiff { defaultOptions with minimal := true } cLocale
      (numbersOnly repeatedOld repeatedNew 2) = .error (.assertion text) := by
  rintro ⟨text, isOne, fails⟩
  exact doDiff_asserts (by rintro (_ | _) <;> decide +kernel) (by decide)
    (by rintro (_ | _) <;> decide +kernel) rfl (Or.inr (Or.inl rfl)) text isOne fails

end Dwdiff
