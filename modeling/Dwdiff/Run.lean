/-
This file gives the rule for statements about a whole run of `doDiffInternal`. A
run is a sequence of two kinds of steps: a pair of equal words is printed as
common, or the words of a change are printed. What all such steps keep is kept by
the run, whatever the context was and however often the function has called
itself, provided the trimming accepts the scripts that the engine finds.
-/

import Dwdiff.DoDiff

namespace Dwdiff

open Diff Outcome Window

variable {options : Options} {locale : Locale} {old new : List Nat} {hashMax : Nat}
  {baseRange : Option Range} {range : Range} {context : Nat} {a b : Int} {change : Change}

/-! ### The engine on a range of words -/

/-- Numbers of words that the tables and the engine have room for. -/
structure Fitting (old new : List Nat) (hashMax : Nat) : Prop where
  small0 : ∀ word ∈ old, word < hashMax
  small1 : ∀ word ∈ new, word < hashMax
  hashMax : hashMax ≤ valueMax
  room : 2 * (old.length + new.length) < 2 ^ 60

/-- The range lies inside the files. -/
structure Range.Inside (range : Range) (old new : List Nat) : Prop where
  low0 : 0 ≤ range.start0
  low1 : 0 ≤ range.start1
  size0 : 0 ≤ range.count0
  size1 : 0 ≤ range.count1
  high0 : range.start0 + range.count0 ≤ old.length
  high1 : range.start1 + range.count1 ≤ new.length

/-- The whole of both files. -/
def wholeRange (old new : List Nat) : Range := ⟨0, old.length, 0, new.length⟩

theorem wholeRange_inside (old new : List Nat) : (wholeRange old new).Inside old new :=
  ⟨le_rfl, le_rfl, Int.natCast_nonneg _, Int.natCast_nonneg _, by simp [wholeRange],
    by simp [wholeRange]⟩

theorem codeAt_sliceOf {words : List Nat} {start count place : Int} (low : 0 ≤ start)
    (nonneg : 0 ≤ place) (below : place < count) :
    codeAt (sliceOf words start count) place = codeAt words (start + place) := by
  unfold codeAt sliceOf
  rw [List.getD_eq_getElem?_getD, List.getD_eq_getElem?_getD, List.getElem?_take_of_lt (by omega),
    List.getElem?_drop, show start.toNat + place.toNat = (start + place).toNat by omega]

/-- A script for a range of words, as a script for the files up to the end of the range. -/
theorem matches_inBase (isRange : baseRange.getD (wholeRange old new) = range)
    (low0 : 0 ≤ range.start0) (low1 : 0 ≤ range.start1) {script : List Change} {i j : Int}
    (isMatch : Matches (codeAt (sliceOf old range.start0 range.count0))
      (codeAt (sliceOf new range.start1 range.count1)) range.count0 range.count1 i j script)
    (nonneg0 : 0 ≤ i) (nonneg1 : 0 ≤ j) :
    Matches (codeAt old) (codeAt new) (range.start0 + range.count0) (range.start1 + range.count1)
      (range.start0 + i) (range.start1 + j) (script.map (inBase baseRange)) := by
  have places : ∀ change, (inBase baseRange change).line0 = range.start0 + change.line0 ∧
      (inBase baseRange change).line1 = range.start1 + change.line1 ∧
      (inBase baseRange change).deleted = change.deleted ∧
      (inBase baseRange change).inserted = change.inserted := by
    intro change
    subst isRange
    cases baseRange with
    | none => simp [inBase, wholeRange]
    | some range => simp [inBase, add_comm]
  have same : ∀ {i j length : Int}, 0 ≤ i → 0 ≤ j → i + length ≤ range.count0 →
      j + length ≤ range.count1 →
      SameOn (codeAt (sliceOf old range.start0 range.count0))
        (codeAt (sliceOf new range.start1 range.count1)) i j length →
      SameOn (codeAt old) (codeAt new) (range.start0 + i) (range.start1 + j) length := by
    intro i j length nonneg0 nonneg1 high0 high1 same k low high
    have equal := same k low high
    rwa [codeAt_sliceOf low0 (by omega) (by omega), codeAt_sliceOf low1 (by omega) (by omega),
      ← add_assoc, ← add_assoc] at equal
  induction script generalizing i j with
  | nil =>
    obtain ⟨le, lengths, equal⟩ := isMatch
    refine ⟨by omega, by omega, ?_⟩
    rw [show range.start0 + range.count0 - (range.start0 + i) = range.count0 - i by ring]
    exact same nonneg0 nonneg1 (by omega) (by omega) equal
  | cons change rest inductionHypothesis =>
    obtain ⟨le, lengths, equal, deleted, inserted, tail⟩ := isMatch
    have bounds := tail.bounds
    obtain ⟨place0, place1, sameDeleted, sameInserted⟩ := places change
    have rest := inductionHypothesis tail (by omega) (by omega)
    rw [List.map_cons, Matches, place0, place1, sameDeleted, sameInserted, add_assoc, add_assoc,
      show range.start0 + change.line0 - (range.start0 + i) = change.line0 - i by ring]
    exact ⟨by omega, by omega, same nonneg0 nonneg1 (by omega) (by omega) equal, deleted, inserted,
      rest⟩

/-- Nothing is taken from a change when there is no context. -/
theorem shrink_zero (deleted : 0 ≤ change.deleted) (inserted : 0 ≤ change.inserted) :
    shrink 0 change = change := by
  obtain ⟨line0, line1, d, k⟩ := change
  dsimp only at deleted inserted
  simp only [shrink, overlapOf, Change.mk.injEq, true_and]
  omega

/-- Without a context, the trimming has nothing to refuse. -/
theorem proper_zero (something : 0 < change.deleted + change.inserted) : Proper 0 change := by
  unfold Proper
  omega

theorem runEngine_total {options : Options} {equivMax : Nat} {equivs0 equivs1 : List Nat}
    (small0 : ∀ code ∈ equivs0, code < equivMax) (small1 : ∀ code ∈ equivs1, code < equivMax)
    (addressable : Addressable equivs0 equivs1) :
    ∃ comparing, runEngine options equivMax equivs0 equivs1 = .ok comparing ∧
      ∃ discards0 discards1 changed0 changed1, Explained options.minimal equivs0 equivs1 comparing
        discards0 discards1 changed0 changed1 := by
  obtain ⟨comparing, returns, explained⟩ :=
    diff2Files_total options.minimal options.speedLargeFiles small0 small1 addressable
  exact ⟨comparing, by rw [runEngine, returns], explained⟩

/-- Two sequences of words are compared by the codes of their windows, which are the words
themselves when there is no context. -/
def Compares (minimal : Bool) (old new : List Nat) (context : Nat) (comparing : Comparing) : Prop :=
  ∃ equivs0 equivs1 equivMax discards0 discards1 changed0 changed1,
    Windowed old new context equivs0 equivs1 equivMax ∧
    Explained minimal equivs0 equivs1 comparing discards0 discards1 changed0 changed1

theorem windowed_zero {equivMax : Nat} (small0 : ∀ word ∈ old, word < equivMax)
    (small1 : ∀ word ∈ new, word < equivMax) : Windowed old new 0 old new equivMax := by
  refine ⟨rfl, rfl, small0, small1, fun p q low0 high0 low1 high1 => ?_⟩
  have there : ∀ {words : List Nat} {place : Int}, 0 ≤ place → place < (words.length : Int) →
      padded words place = codeAt words place := fun low high => if_pos ⟨low, high⟩
  have words : padded old p = padded new q ↔ codeAt old p = codeAt new q := by
    rw [there low0 (by omega), there low1 (by omega), Nat.cast_inj]
  rw [← words]
  constructor
  · intro same back low high
    obtain rfl : back = 0 := by omega
    rwa [sub_zero, sub_zero]
  · intro agree
    have same := agree 0 le_rfl le_rfl
    rwa [sub_zero, sub_zero] at same

/-- Nothing is found exactly when the words are the same. -/
theorem Compares.script_nil_iff {minimal : Bool} {comparing : Comparing}
    (compares : Compares minimal old new context comparing) :
    comparing.script = [] ↔ old = new := by
  obtain ⟨equivs0, equivs1, equivMax, discards0, discards1, changed0, changed1, windowed,
    explained⟩ := compares
  have length0 := windowed.length0
  have length1 := windowed.length1
  constructor
  · intro none
    have isMatch := explained.isMatch
    rw [none] at isMatch
    obtain ⟨-, lengths, same⟩ := isMatch
    refine List.ext_getElem (by omega) fun index below below' => ?_
    have agree := (windowed.same index index (by omega) (by omega) (by omega) (by omega)).mp (by
      have equal := same index (by omega) (by omega)
      rwa [zero_add] at equal) 0 le_rfl (by omega)
    rw [sub_zero, padded, padded, if_pos ⟨by omega, by omega⟩, if_pos ⟨by omega, by omega⟩,
      Int.toNat_natCast, Nat.cast_inj, List.getD_eq_getElem?_getD, List.getD_eq_getElem?_getD,
      List.getElem?_eq_getElem below, List.getElem?_eq_getElem below'] at agree
    exact agree
  · rintro rfl
    have codes : equivs0 = equivs1 := by
      refine List.ext_getElem (by omega) fun index below below' => ?_
      have same := (windowed.same index index (by omega) (by omega) (by omega) (by omega)).mpr
        fun back _ _ => rfl
      rwa [codeAt, codeAt, Int.toNat_natCast, List.getD_eq_getElem?_getD,
        List.getD_eq_getElem?_getD, List.getElem?_eq_getElem below,
        List.getElem?_eq_getElem below'] at same
    subst codes
    exact explained.script_nil

/-- What the loop of `doDiffInternal` works with. -/
structure Found (old new : List Nat) (range : Range) (context : Nat) (script : List Change) :
    Prop where
  separated : Separated 0 0 script
  nonneg : ∀ change ∈ script, 0 ≤ change.deleted ∧ 0 ≤ change.inserted
  words : Matches (codeAt (sliceOf old range.start0 range.count0))
    (codeAt (sliceOf new range.start1 range.count1)) range.count0 range.count1 0 0
    ((properOnly context script).map (shrink context))

/-- The comparison with a context, from the calls that it makes. -/
theorem compareRange_of_calls (isRange : baseRange.getD (wholeRange old new) = range)
    (wide : fitContext range context ≠ 0) {equivs0 equivs1 : List Nat} {table0 table1 : Hashtable}
    (calls0 : initializeContextDiffTokens Hashtable.empty old
      (baseRange.map fun range => (range.start0, range.count0)) (fitContext range context) =
        .ok (equivs0, table0))
    (calls1 : initializeContextDiffTokens table0 new
      (baseRange.map fun range => (range.start1, range.count1)) (fitContext range context) =
        .ok (equivs1, table1)) {comparing : Comparing}
    (runs : runEngine options table1.nextValue equivs0 equivs1 = .ok comparing) :
    compareRange options hashMax old new baseRange context Hashtable.empty =
      .ok (fitContext range context, comparing, Hashtable.empty) := by
  unfold compareRange
  rw [show (⟨0, old.length, 0, new.length⟩ : Range) = wholeRange old new from rfl, isRange]
  dsimp only
  rw [if_neg wide, calls0]
  dsimp only [ok_bind]
  rw [calls1]
  dsimp only [ok_bind, getHashMax]
  rw [runs, ok_bind]

theorem compareRange_total (options : Options) (fitting : Fitting old new hashMax)
    (isRange : baseRange.getD (wholeRange old new) = range) (inside : range.Inside old new)
    (context : Nat) :
    ∃ comparing, compareRange options hashMax old new baseRange context Hashtable.empty =
        .ok (fitContext range context, comparing, Hashtable.empty) ∧
      Found old new range (fitContext range context) comparing.script ∧
      Compares options.minimal (sliceOf old range.start0 range.count0)
        (sliceOf new range.start1 range.count1) (fitContext range context) comparing := by
  obtain ⟨low0, low1, size0, size1, high0, high1⟩ := inside
  have length0 := sliceOf_length low0 high0
  have length1 := sliceOf_length low1 high1
  have room := fitting.room
  by_cases none : fitContext range context = 0
  · have small0 : ∀ word ∈ sliceOf old range.start0 range.count0, word < hashMax :=
      fun word isOne => fitting.small0 word (mem_of_mem_sliceOf isOne)
    have small1 : ∀ word ∈ sliceOf new range.start1 range.count1, word < hashMax :=
      fun word isOne => fitting.small1 word (mem_of_mem_sliceOf isOne)
    obtain ⟨comparing, returns, discards0, discards1, changed0, changed1, explained⟩ :=
      @runEngine_total options hashMax (sliceOf old range.start0 range.count0)
        (sliceOf new range.start1 range.count1) small0 small1 (by unfold Addressable; omega)
    have isMatch := explained.isMatch
    rw [length0, length1, Int.toNat_of_nonneg size0, Int.toNat_of_nonneg size1] at isMatch
    refine ⟨comparing, ?_, ⟨explained.separated, isMatch.nonneg, ?_⟩, _, _, hashMax, discards0,
      discards1, changed0, changed1, by rw [none]; exact windowed_zero small0 small1, explained⟩
    · unfold compareRange
      rw [show (⟨0, old.length, 0, new.length⟩ : Range) = wholeRange old new from rfl, isRange]
      dsimp only
      rw [if_pos none, returns, none]
      rfl
    · have unchanged : comparing.script.map (shrink 0) = comparing.script.map id :=
        List.map_congr_left fun change isOne => shrink_zero (isMatch.nonneg change isOne).1
          (isMatch.nonneg change isOne).2
      rw [none, Nat.cast_zero, properOnly_eq fun change isOne => proper_zero
        (explained.separated.something change isOne), unchanged, List.map_id]
      exact isMatch
  · have wide : 0 < fitContext range context := Nat.pos_of_ne_zero none
    have fits0 : (fitContext range context : Int) ≤ range.count0 := by
      unfold fitContext
      omega
    have fits1 : (fitContext range context : Int) ≤ range.count1 := by
      unfold fitContext
      omega
    have bounded : ∀ {words : List Nat}, (∀ word ∈ words, word < hashMax) →
        ∀ word ∈ words, word ≤ valueMax :=
      fun small word isOne => Nat.le_trans (Nat.le_of_lt (small word isOne)) fitting.hashMax
    obtain ⟨equivs0, table0, equivs1, table1, calls0, calls1, windowed⟩ :=
      @contextDiffTokens_total old new (baseRange.map fun range => (range.start0, range.count0))
        (baseRange.map fun range => (range.start1, range.count1)) range.start0 range.count0
        range.start1 range.count1 (by subst isRange; cases baseRange <;> rfl)
        (by subst isRange; cases baseRange <;> rfl) low0 high0 low1 high1 _ wide fits0 fits1
        (bounded fitting.small0) (bounded fitting.small1) (by unfold valueMax; omega)
    have lengths0 := windowed.length0
    have lengths1 := windowed.length1
    obtain ⟨comparing, returns, discards0, discards1, changed0, changed1, explained⟩ :=
      @runEngine_total options table1.nextValue equivs0 equivs1 windowed.small0 windowed.small1
        (by unfold Addressable; omega)
    refine ⟨comparing, ?_, ⟨explained.separated, explained.isMatch.nonneg, ?_⟩, _, _,
      _, discards0, discards1, changed0, changed1, windowed, explained⟩
    · exact compareRange_of_calls isRange none calls0 calls1 returns
    · have words := windowed.words wide (by omega) (by omega) explained.isMatch explained.separated
      rw [length0, length1, Int.toNat_of_nonneg size0, Int.toNat_of_nonneg size1] at words
      exact words

/-! ### The steps of a run -/

/-- The words from the places `p` and `q` up to the places `a` and `b` are pairwise equal. -/
structure InStep (old new : List Nat) (p q a b : Int) : Prop where
  le : p ≤ a
  lengths : a - p = b - q
  same : SameOn (codeAt old) (codeAt new) p q (a - p)

theorem InStep.refl (old new : List Nat) (p q : Int) : InStep old new p q p q :=
  ⟨le_rfl, by omega, fun k low high => by omega⟩

theorem InStep.extend {p q a' b' : Int} (inStep : InStep old new p q a b)
    (further : InStep old new a b a' b') : InStep old new p q a' b' := by
  obtain ⟨le, lengths, same⟩ := inStep
  obtain ⟨le', lengths', same'⟩ := further
  refine ⟨by omega, by omega, fun k low high => ?_⟩
  by_cases before : k < a - p
  · exact same k low before
  · have equal := same' (k - (a - p)) (by omega) (by omega)
    rwa [show a + (k - (a - p)) = p + k by ring, show b + (k - (a - p)) = q + k by omega] at equal

/-- The change has words for what its command prints. -/
def Suits : Command → Change → Prop
  | .add, change => 0 < change.inserted
  | .del, change => 0 < change.deleted
  | .change, change => 0 < change.deleted ∧ 0 < change.inserted

/-- What a command replaces, for a change that suits it. -/
theorem Suits.words {command : Command} (suits : Suits command change) :
    0 ≤ (wordChange command change).deleted ∧ 0 ≤ (wordChange command change).inserted ∧
      (wordChange command change).line0 = change.line0 ∧
      (wordChange command change).line1 = change.line1 := by
  cases command with
  | add => exact ⟨le_rfl, le_of_lt suits, rfl, rfl⟩
  | del => exact ⟨le_of_lt suits, le_rfl, rfl, rfl⟩
  | change => exact ⟨le_of_lt suits.1, le_of_lt suits.2, rfl, rfl⟩

section Run

variable {allowed : Failure → Prop} {invariant : Int → Int → Printing → Prop}
  {recurse : Range → Nat → Printing → Except Failure Printing} {state : Printing}

/-- What holds of the files, with `p` and `q` words printed, is kept by every step of a run. -/
structure Keeps (options : Options) (locale : Locale) (old new : List Nat) (hashMax : Nat)
    (allowed : Failure → Prop) (invariant : Int → Int → Printing → Prop) : Prop where
  nonneg : ∀ {p q state}, invariant p q state → 0 ≤ p ∧ 0 ≤ q
  oldTokens : ∀ {p q state}, invariant p q state → state.oldFile.diffTokens = old
  newTokens : ∀ {p q state}, invariant p q state → state.newFile.diffTokens = new
  hashMax : ∀ {p q state}, invariant p q state → state.baseHashMax = hashMax
  hashtable : ∀ {p q state}, invariant p q state → state.hashtable = Hashtable.empty
  printed : ∀ {p q state}, invariant p q state → state.newFile.lastPrinted = q
  marked : ∀ {p q state}, options.needMarkers = true → invariant p q state →
    invariant p q (state.onScreen fun screen => screen.emit (.puts markerLine))
  noticed : ∀ {p q state}, invariant p q state → invariant p q { state with differences := 1 }
  common : ∀ {p q state}, invariant p q state → p < old.length → q < new.length →
    codeAt old p = codeAt new q →
    Meets allowed (invariant (p + 1) (q + 1)) (printCommonWord options locale state)
  difference : ∀ {command change state}, Suits command change →
    change.line0 + (wordChange command change).deleted ≤ old.length →
    change.line1 + (wordChange command change).inserted ≤ new.length →
    invariant change.line0 change.line1 state →
    Meets allowed (invariant (change.line0 + (wordChange command change).deleted)
        (change.line1 + (wordChange command change).inserted))
      (printDifference options locale command change state)

/-- From `p` and `q` on, equal words lead to the places `a` and `b`. -/
def Arrives (old new : List Nat) (invariant : Int → Int → Printing → Prop) (a b : Int)
    (state : Printing) : Prop :=
  ∃ p q, InStep old new p q a b ∧ invariant p q state

theorem Arrives.extend {a' b' : Int} (arrives : Arrives old new invariant a b state)
    (further : InStep old new a b a' b') : Arrives old new invariant a' b' state := by
  obtain ⟨p, q, inStep, holds⟩ := arrives
  exact ⟨p, q, inStep.extend further, holds⟩

/-- The range of the recursive call for a trimmed change. -/
def rangeOf (change : Change) : Range :=
  ⟨change.line0, change.deleted, change.line1, change.inserted⟩

theorem shrink_inBase (context : Int) (baseRange : Option Range) (change : Change) :
    shrink context (inBase baseRange change) = inBase baseRange (shrink context change) := by
  cases baseRange <;> rfl

theorem proper_inBase {context : Int} (baseRange : Option Range) (proper : Proper context change) :
    Proper context (inBase baseRange change) := by
  cases baseRange <;> exact proper

/-- The trimming of a change that is accepted, with what its command prints. -/
theorem trimChange_suits (deleted : 0 ≤ change.deleted) (inserted : 0 ≤ change.inserted)
    (proper : Proper context change) (something : 0 < change.deleted + change.inserted) :
    ∃ command trimmed, trimChange context change = .ok (command, trimmed) ∧
      wordChange command trimmed = shrink context change ∧ Suits command trimmed ∧
      (command = .change →
        (context : Int) < change.deleted ∧ (context : Int) < change.inserted) := by
  obtain ⟨command, trimmed, trims, words⟩ := trimChange_eq deleted inserted proper
  refine ⟨command, trimmed, trims, words, ?_⟩
  unfold trimChange commandOf at trims
  unfold Proper at proper
  split at trims
  · next isChange =>
    split_ifs at isChange with noInsertion noDeletion
    split at trims
    · next short =>
      obtain ⟨-, -, trims⟩ := bind_eq_ok.mp trims
      split at trims <;> cases trims
      · exact ⟨by simp only [Suits]; omega, nofun⟩
      · exact ⟨by simp only [Suits]; omega, nofun⟩
    · next long =>
      cases trims
      exact ⟨by simp only [Suits]; omega, fun _ => by omega⟩
  · cases trims
    split_ifs with noInsertion noDeletion
    · exact ⟨by simp only [Suits]; omega, nofun⟩
    · exact ⟨by simp only [Suits]; omega, nofun⟩
    · next isOther => exact absurd (by rw [if_neg noInsertion, if_neg noDeletion]) isOther

theorem trimChange_zero (deleted : 0 ≤ change.deleted) (inserted : 0 ≤ change.inserted) :
    trimChange 0 change = .ok (commandOf change, change) := by
  unfold trimChange
  cases isCommand : commandOf change with
  | add => rfl
  | del => rfl
  | change =>
    unfold commandOf at isCommand
    split_ifs at isCommand with noInsertion noDeletion
    dsimp only
    rw [if_neg (by omega), Nat.cast_zero, sub_zero, sub_zero]

/-- The trimming accepts every change that the engine finds in a call and in the calls that this
one makes. -/
def Accepted (options : Options) (hashMax : Nat) (old new : List Nat) :
    Nat → Option Range → Nat → Prop
  | 0, _, _ => True
  | depth + 1, baseRange, context =>
    ∀ context' comparing table,
      compareRange options hashMax old new baseRange context Hashtable.empty =
        .ok (context', comparing, table) →
      ∀ change ∈ comparing.script, Proper context' change ∧
        (context' ≠ 0 → options.aggregateChanges = false → context' < change.deleted →
          context' < change.inserted →
          Accepted options hashMax old new depth
            (some (rangeOf (shrink context' (inBase baseRange change)))) (context' / 4 * 2))

/-- The assertion of the trimming. -/
def Failure.ofTrimming : Failure := .assertion "script->deleted != script->inserted"

/-- A change that the trimming refuses ends the run. -/
theorem doChange_refuses (uses : options.matchContext = 0 → context = 0)
    (something : 0 < change.deleted + change.inserted) (improper : ¬ Proper context change)
    (state : Printing) :
    doChange options locale recurse baseRange context change state = .error .ofTrimming := by
  have none : context ≠ 0 := by
    rintro rfl
    exact improper (proper_zero something)
  obtain ⟨same, short⟩ := not_not.mp improper
  have sizes : (inBase baseRange change).deleted = change.deleted ∧
      (inBase baseRange change).inserted = change.inserted := by
    cases baseRange <;> exact ⟨rfl, rfl⟩
  have refuses : trimChange context (inBase baseRange change) = .error .ofTrimming := by
    unfold trimChange commandOf
    rw [if_neg (by omega), if_neg (by omega)]
    dsimp only
    rw [if_pos (Or.inl (by omega)), sizes.1, sizes.2, same, bne_self_eq_false]
    rfl
  unfold doChange
  rw [if_pos ⟨fun unused => none (uses unused), none⟩, refuses]
  rfl

theorem doChanges_append (before rest : List Change) (state : Printing) :
    doChanges options locale recurse baseRange context (before ++ rest) state =
      doChanges options locale recurse baseRange context before state >>=
        doChanges options locale recurse baseRange context rest := by
  induction before generalizing state with
  | nil => rfl
  | cons change before inductionHypothesis =>
    rw [List.cons_append, doChanges, doChanges]
    cases doChange options locale recurse baseRange context change state with
    | error failure => rfl
    | ok state' => exact inductionHypothesis state'

/-- The trimming accepts a script, or there is a first change that it refuses. -/
theorem exists_refused (context : Int) (script : List Change) :
    (∀ change ∈ script, Proper context change) ∨
      ∃ before change rest, script = before ++ change :: rest ∧
        (∀ other ∈ before, Proper context other) ∧ ¬ Proper context change := by
  induction script with
  | nil => exact Or.inl fun _ absent => absurd absent List.not_mem_nil
  | cons change rest inductionHypothesis =>
    by_cases proper : Proper context change
    · rcases inductionHypothesis with all | ⟨before, refused, rest', rfl, accepted, improper⟩
      · exact Or.inl (List.forall_mem_cons.mpr ⟨proper, all⟩)
      · exact Or.inr ⟨change :: before, refused, rest', rfl,
          List.forall_mem_cons.mpr ⟨proper, accepted⟩, improper⟩
    · exact Or.inr ⟨[], change, rest, rfl, fun _ absent => absurd absent List.not_mem_nil, proper⟩

theorem fitContext_le (range : Range) (context : Nat) : fitContext range context ≤ context := by
  unfold fitContext
  omega

/-- The recursive call for a change stays inside the files. -/
theorem Found.inside {script : List Change} (found : Found old new range context script)
    (isRange : baseRange.getD (wholeRange old new) = range) (inside : range.Inside old new)
    (isOne : change ∈ script) (proper : Proper context change) :
    (rangeOf (shrink context (inBase baseRange change))).Inside old new := by
  have words := matches_inBase isRange inside.low0 inside.low1 found.words le_rfl le_rfl
  obtain ⟨le0, le1, deleted, inserted, high0, high1⟩ := words.inside _
    (List.mem_map_of_mem (List.mem_map_of_mem (List.mem_filter.mpr ⟨isOne, decide_eq_true proper⟩)))
  rw [← shrink_inBase] at le0 le1 deleted inserted high0 high1
  obtain ⟨low0, low1, -, -, top0, top1⟩ := inside
  exact ⟨by show 0 ≤ Change.line0 _; omega, by show 0 ≤ Change.line1 _; omega, deleted, inserted,
    high0.trans top0, high1.trans top1⟩

variable (keeps : Keeps options locale old new hashMax allowed invariant)

include keeps

theorem printToCommonWord_meets {p q : Int} (inStep : InStep old new p q a b)
    (high0 : a ≤ old.length) (high1 : b ≤ new.length) {fuel : Nat} (enough : b - q ≤ fuel)
    (holds : invariant p q state) :
    Meets allowed (invariant a b) (printToCommonWord options locale b fuel state) := by
  have finished : ¬ q < b → invariant a b state := by
    intro ends
    obtain ⟨le, lengths, -⟩ := inStep
    obtain rfl : p = a := by omega
    obtain rfl : q = b := by omega
    exact holds
  induction fuel generalizing p q state with
  | zero =>
    rw [printToCommonWord, keeps.printed holds, if_neg (by omega)]
    exact finished (by omega)
  | succ fuel inductionHypothesis =>
    rw [printToCommonWord, keeps.printed holds]
    by_cases more : q < b
    · rw [if_pos more]
      obtain ⟨le, lengths, same⟩ := inStep
      have equal := same 0 le_rfl (by omega)
      rw [add_zero, add_zero] at equal
      refine (keeps.common holds (by omega) (by omega) equal).bind fun state' holds' => ?_
      have inStep' : InStep old new (p + 1) (q + 1) a b := by
        refine ⟨by omega, by omega, fun k low high => ?_⟩
        have equal := same (1 + k) (by omega) (by omega)
        rwa [← add_assoc, ← add_assoc] at equal
      refine inductionHypothesis inStep' (by omega) holds' fun ends => ?_
      obtain rfl : p + 1 = a := by omega
      obtain rfl : q + 1 = b := by omega
      exact holds'
    · rw [if_neg more]
      exact finished more

theorem printChange_meets {command : Command} (suits : Suits command change)
    (high0 : change.line0 + (wordChange command change).deleted ≤ old.length)
    (high1 : change.line1 + (wordChange command change).inserted ≤ new.length)
    (nonneg0 : 0 ≤ (wordChange command change).deleted)
    (nonneg1 : 0 ≤ (wordChange command change).inserted)
    (arrives : Arrives old new invariant change.line0 change.line1 state) :
    Meets allowed (Arrives old new invariant (change.line0 + (wordChange command change).deleted)
        (change.line1 + (wordChange command change).inserted))
      (printChange options locale command change state) := by
  obtain ⟨p, q, inStep, holds⟩ := arrives
  unfold printChange
  rw [keeps.printed holds]
  refine (printToCommonWord_meets keeps inStep (by omega) (by omega)
    (by have := inStep.le; have := inStep.lengths; omega) holds).bind fun state' holds' => ?_
  exact (keeps.difference suits high0 high1 holds').mono fun _ holds'' =>
    ⟨_, _, InStep.refl _ _ _ _, holds''⟩

/-! ### The loop over a script -/

/-- One round of the loop. -/
theorem doChange_meets {words : Change} (uses : options.matchContext = 0 → context = 0)
    (deleted : 0 ≤ change.deleted) (inserted : 0 ≤ change.inserted)
    (something : 0 < change.deleted + change.inserted) (proper : Proper context change)
    (isWords : shrink context (inBase baseRange change) = words)
    (high0 : words.line0 + words.deleted ≤ old.length)
    (high1 : words.line1 + words.inserted ≤ new.length)
    (recurses : context ≠ 0 → options.aggregateChanges = false → context < change.deleted →
      context < change.inserted → ∀ state, Arrives old new invariant words.line0 words.line1 state →
        Meets allowed (Arrives old new invariant (words.line0 + words.deleted)
          (words.line1 + words.inserted)) (recurse (rangeOf words) (context / 4 * 2) state))
    (arrives : Arrives old new invariant words.line0 words.line1 state) :
    Meets allowed (Arrives old new invariant (words.line0 + words.deleted)
        (words.line1 + words.inserted))
      (doChange options locale recurse baseRange context change state) := by
  have sizes : (inBase baseRange change).deleted = change.deleted ∧
      (inBase baseRange change).inserted = change.inserted := by
    cases baseRange <;> exact ⟨rfl, rfl⟩
  obtain ⟨command, trimmed, trims, isTrimmed, suits, large⟩ := trimChange_suits
    (sizes.1 ▸ deleted) (sizes.2 ▸ inserted) (proper_inBase baseRange proper)
    (by rw [sizes.1, sizes.2]; exact something)
  rw [isWords] at isTrimmed
  rw [sizes.1, sizes.2] at large
  have least : 0 ≤ words.deleted ∧ 0 ≤ words.inserted := by
    subst isWords
    unfold shrink overlapOf
    dsimp only
    omega
  have lines : trimmed.line0 = words.line0 ∧ trimmed.line1 = words.line1 := by
    subst isTrimmed
    cases command <;> exact ⟨rfl, rfl⟩
  have noticed : Arrives old new invariant words.line0 words.line1
      { state with differences := 1 } := by
    obtain ⟨p, q, inStep, holds⟩ := arrives
    exact ⟨p, q, inStep, keeps.noticed holds⟩
  have prints : Meets allowed (Arrives old new invariant (words.line0 + words.deleted)
      (words.line1 + words.inserted))
      (printChange options locale command trimmed { state with differences := 1 }) := by
    have printed := @printChange_meets _ _ _ _ _ trimmed _ _ _ keeps command suits
      (by rw [isTrimmed, lines.1]; exact high0) (by rw [isTrimmed, lines.2]; exact high1)
      (by rw [isTrimmed]; exact least.1) (by rw [isTrimmed]; exact least.2)
      (by rw [lines.1, lines.2]; exact noticed)
    rwa [isTrimmed, lines.1, lines.2] at printed
  unfold doChange
  dsimp only
  by_cases none : context = 0
  · subst none
    rw [if_neg (by omega)]
    rw [trimChange_zero (sizes.1 ▸ deleted) (sizes.2 ▸ inserted)] at trims
    cases trims
    exact prints
  · rw [if_pos ⟨fun unused => none (uses unused), none⟩, trims, ok_bind]
    dsimp only
    split
    · next recursive =>
      have isRange : (⟨trimmed.line0, trimmed.deleted, trimmed.line1, trimmed.inserted⟩ : Range) =
          rangeOf words := by
        rw [← isTrimmed, recursive.1]
        rfl
      rw [isRange]
      exact recurses none (by simpa using recursive.2) (large recursive.1).1 (large recursive.1).2 _
        noticed
    · exact prints

/-- The whole loop. The induction is on the script; `i` and `j` are the places, in the files, where
the change before has ended. -/
theorem doChanges_meets (uses : options.matchContext = 0 → context = 0) {end0 end1 : Int}
    (high0 : end0 ≤ old.length) (high1 : end1 ≤ new.length) :
    ∀ {script : List Change} {least k i j : Int},
      Matches (codeAt old) (codeAt new) end0 end1 i j
        (script.map fun change => shrink context (inBase baseRange change)) →
      Separated least k script →
      (∀ change ∈ script, 0 ≤ change.deleted ∧ 0 ≤ change.inserted) →
      (∀ change ∈ script, Proper context change) →
      (∀ change ∈ script, context ≠ 0 → options.aggregateChanges = false →
        context < change.deleted → context < change.inserted →
        ∀ words, shrink context (inBase baseRange change) = words → ∀ state,
          words.line0 + words.deleted ≤ end0 → words.line1 + words.inserted ≤ end1 →
          Arrives old new invariant words.line0 words.line1 state →
          Meets allowed (Arrives old new invariant (words.line0 + words.deleted)
            (words.line1 + words.inserted)) (recurse (rangeOf words) (context / 4 * 2) state)) →
      ∀ {state : Printing}, Arrives old new invariant i j state →
      Meets allowed (Arrives old new invariant end0 end1)
        (doChanges options locale recurse baseRange context script state) := by
  intro script
  induction script with
  | nil =>
    intro least k i j isMatch _ _ _ _ state arrives
    obtain ⟨nonneg, lengths, same⟩ := isMatch
    exact arrives.extend ⟨by omega, by omega, same⟩
  | cons change rest inductionHypothesis =>
    intro least k i j isMatch separated nonneg proper recurses state arrives
    obtain ⟨le, lengths, same, deleted, inserted, tail⟩ := isMatch
    obtain ⟨-, something, separated⟩ := separated
    have bounds := tail.bounds
    have here := arrives.extend ⟨le, lengths, same⟩
    have first := nonneg change List.mem_cons_self
    refine (doChange_meets keeps uses first.1 first.2 something (proper change List.mem_cons_self)
      rfl (le_trans bounds.1 high0) (le_trans bounds.2 high1)
      (fun wide each large0 large1 state arrives =>
        recurses change List.mem_cons_self wide each large0 large1 _ rfl state bounds.1 bounds.2
          arrives) here).bind fun state' arrives' => ?_
    exact inductionHypothesis tail separated
      (fun other isOne => nonneg other (List.mem_cons_of_mem _ isOne))
      (fun other isOne => proper other (List.mem_cons_of_mem _ isOne))
      (fun other isOne => recurses other (List.mem_cons_of_mem _ isOne)) arrives'

/-! ### The calls of doDiffInternal -/

/-- A call and what it does in front of its loop. -/
theorem doDiffInternal_starts (fitting : Fitting old new hashMax)
    (isRange : baseRange.getD (wholeRange old new) = range) (inside : range.Inside old new)
    (depth context : Nat) (arrives : Arrives old new invariant range.start0 range.start1 state) :
    ∃ comparing shown, compareRange options hashMax old new baseRange context Hashtable.empty =
        .ok (fitContext range context, comparing, Hashtable.empty) ∧
      Found old new range (fitContext range context) comparing.script ∧
      Arrives old new invariant range.start0 range.start1 shown ∧
      doDiffInternal options locale (depth + 1) baseRange context state =
        doChanges options locale (fun range => doDiffInternal options locale depth (some range))
          baseRange (fitContext range context) comparing.script shown := by
  obtain ⟨comparing, compares, found, -⟩ :=
    compareRange_total options fitting isRange inside context
  obtain ⟨p, q, inStep, holds⟩ := arrives
  refine ⟨comparing, ({ state with hashtable := Hashtable.empty }.onScreen fun screen =>
    screen.emitIf (options.needMarkers && baseRange.isNone) (.puts markerLine)), compares, found,
    ⟨p, q, inStep, ?_⟩, ?_⟩
  · rw [← keeps.hashtable holds]
    unfold Screen.emitIf
    split
    · next marks => exact keeps.marked (by simp_all) holds
    · exact holds
  · rw [doDiffInternal, keeps.hashMax holds, keeps.oldTokens holds, keeps.newTokens holds,
      keeps.hashtable holds, compares]
    rfl

/-- The loop over some changes from the start of a script, when the trimming accepts them: it
arrives where the rest of the script begins. -/
theorem doChanges_before (recurse : Range → Nat → Printing → Except Failure Printing)
    {range : Range} (uses : options.matchContext = 0 → context = 0)
    (isRange : baseRange.getD (wholeRange old new) = range) (inside : range.Inside old new)
    {before rest : List Change} (found : Found old new range context (before ++ rest))
    (proper : ∀ change ∈ before, Proper context change)
    (recurses : ∀ change ∈ before, context ≠ 0 → options.aggregateChanges = false →
      context < change.deleted → context < change.inserted →
      ∀ words, shrink context (inBase baseRange change) = words → (rangeOf words).Inside old new →
      ∀ state, Arrives old new invariant words.line0 words.line1 state →
        Meets allowed (Arrives old new invariant (words.line0 + words.deleted)
          (words.line1 + words.inserted)) (recurse (rangeOf words) (context / 4 * 2) state))
    (arrives : Arrives old new invariant range.start0 range.start1 state) :
    ∃ i j, Matches (codeAt old) (codeAt new) (range.start0 + range.count0)
        (range.start1 + range.count1) i j
        ((properOnly context rest).map fun change => shrink context (inBase baseRange change)) ∧
      Meets allowed (Arrives old new invariant i j)
        (doChanges options locale recurse baseRange context before state) := by
  have isMatch := matches_inBase isRange inside.low0 inside.low1 found.words le_rfl le_rfl
  rw [List.map_map, add_zero, add_zero, properOnly, List.filter_append, ← properOnly, ← properOnly,
    properOnly_eq proper, List.map_append] at isMatch
  simp only [Function.comp_def, ← shrink_inBase] at isMatch
  obtain ⟨i, j, first, second⟩ := isMatch.front
  have bounds := second.bounds
  exact ⟨i, j, second, doChanges_meets keeps uses (bounds.1.trans inside.high0)
    (bounds.2.trans inside.high1) first found.separated.append_left
    (fun change isOne => found.nonneg change (List.mem_append_left _ isOne)) proper
    (fun change isOne wide each large0 large1 words isWords state _ _ => recurses change isOne wide
      each large0 large1 words isWords (isWords ▸ found.inside isRange inside
        (List.mem_append_left _ isOne) (proper change isOne)) state) arrives⟩

/-- What the steps of a run keep is kept by every call, up to the end of its range. The induction
is on the bound for the depth, which the context never exceeds. -/
theorem doDiffInternal_meets (fitting : Fitting old new hashMax) :
    ∀ {depth : Nat} {baseRange : Option Range} {range : Range} {context : Nat},
      baseRange.getD (wholeRange old new) = range → range.Inside old new → context < depth →
      (options.matchContext = 0 → context = 0) →
      (allowed .ofTrimming ∨ Accepted options hashMax old new depth baseRange context) →
      ∀ {state : Printing}, Arrives old new invariant range.start0 range.start1 state →
      Meets allowed (Arrives old new invariant (range.start0 + range.count0)
          (range.start1 + range.count1))
        (doDiffInternal options locale depth baseRange context state) := by
  intro depth
  induction depth with
  | zero => exact fun _ _ below => absurd below (Nat.not_lt_zero _)
  | succ depth inductionHypothesis =>
    intro baseRange range context isRange inside below uses accepted state arrives
    obtain ⟨comparing, shown, compares, found, arrives', calls⟩ :=
      doDiffInternal_starts keeps fitting isRange inside depth context arrives
    rw [calls]
    have fits := fitContext_le range context
    have uses' : options.matchContext = 0 → fitContext range context = 0 := fun unused => by
      have := uses unused
      omega
    have recurses : ∀ change ∈ comparing.script, fitContext range context ≠ 0 →
        options.aggregateChanges = false → fitContext range context < change.deleted →
        fitContext range context < change.inserted → ∀ words,
        shrink (fitContext range context) (inBase baseRange change) = words →
        (rangeOf words).Inside old new → ∀ state,
        Arrives old new invariant words.line0 words.line1 state →
        Meets allowed (Arrives old new invariant (words.line0 + words.deleted)
          (words.line1 + words.inserted)) (doDiffInternal options locale depth
            (some (rangeOf words)) (fitContext range context / 4 * 2) state) := by
      intro change isOne wide each large0 large1 words isWords insideWords state arrives
      refine @inductionHypothesis (some (rangeOf words)) _ _ rfl insideWords (by omega)
        (fun unused => by have := uses' unused; omega) ?_ _ arrives
      rcases accepted with refuses | accepted
      · exact Or.inl refuses
      · subst isWords
        exact Or.inr ((accepted _ _ _ compares change isOne).2 wide each large0 large1)
    have loop := fun state => @doChanges_before _ _ _ _ _ _ _ _ _ state keeps
      (fun range => doDiffInternal options locale depth (some range)) _ uses' isRange inside
    rcases exists_refused (fitContext range context) comparing.script with
      all | ⟨before, change, rest, isScript, proper, improper⟩
    · obtain ⟨i, j, ⟨le, lengths, same⟩, meets⟩ :=
        @loop _ comparing.script [] (by rwa [List.append_nil]) all recurses arrives'
      exact meets.mono fun _ arrives'' => arrives''.extend ⟨by omega, lengths, same⟩
    · rcases accepted with refuses | accepted
      · rw [isScript] at found recurses ⊢
        obtain ⟨i, j, -, meets⟩ := loop _ found proper
          (fun other isOne => recurses other (List.mem_append_left _ isOne)) arrives'
        rw [doChanges_append]
        refine meets.bind fun state' _ => ?_
        rw [doChanges, doChange_refuses uses' (found.separated.something change (by simp)) improper]
        exact refuses
      · exact absurd (accepted _ _ _ compares change (by simp [isScript])).1 improper

end Run

end Dwdiff
