/-
This file relates the clusters that `getClusterInternal` returns to the code
points that `getucFiltered` returns. One code point of look ahead is carried
from call to call in the stream, and its category with it. The clusters of a
stream are the code points cut wherever the table entry of two neighbours is 0:
none is lost, none is read twice, and no cut is made one character late.
-/

import Dwdiff.StringStream
import Mathlib.Data.List.SplitBy

namespace Dwdiff

open Outcome

/-! ### The look ahead is not read -/

/-- The stream with another code point put aside by the cluster reader. -/
def Stream.lookAhead (stream : Stream) (c : Int) (category : Nat) : Stream :=
  { stream with bufferedChar := c, lastClusterCategory := category }

section LookAhead

variable (stream : Stream) (c : Int) (category : Nat)

/-- The outcome of a reader, with another code point put aside. -/
def outcomeLookAhead (outcome : Except Failure (Int × Stream)) : Except Failure (Int × Stream) :=
  outcome.map fun (value, stream) => (value, stream.lookAhead c category)

theorem getChar_lookAhead :
    (stream.lookAhead c category).getChar =
      (stream.getChar.1, stream.getChar.2.lookAhead c category) := by
  rcases stream with ⟨⟨_ | _, consumed, _ | ⟨byte, rest⟩, eof⟩, buffered, last, surrogate, next⟩
  all_goals rfl

theorem ungetChar_lookAhead (char : UInt8) :
    (stream.lookAhead c category).ungetChar char =
      (stream.ungetChar char).map fun stream => stream.lookAhead c category := by
  rcases stream with
    ⟨⟨_ | _, _ | ⟨byte, before⟩, remaining, eof⟩, buffered, last, surrogate, next⟩
  · rfl
  · rfl
  · rfl
  · show (assert _ _ >>= fun _ => _) = Except.map _ (assert _ _ >>= fun _ => _)
    unfold assert
    split <;> rfl

theorem lookAhead_tandem :
    Tandem fun stream other : Stream => other = stream.lookAhead c category where
  getChar := by
    rintro stream _ rfl
    rw [vtable_getChar, vtable_getChar, getChar_lookAhead]
    refine ⟨rfl, rfl, fun char _ => ?_⟩
    show Agree _ (stream.getChar.2.ungetChar char)
      ((stream.getChar.2.lookAhead c category).ungetChar char)
    rw [ungetChar_lookAhead]
    cases stream.getChar.2.ungetChar char <;> exact rfl

theorem getuc_lookAhead :
    getuc (stream.lookAhead c category) = outcomeLookAhead c category (getuc stream) := by
  have related : stream.lookAhead c category = stream.lookAhead c category := rfl
  rcases ((lookAhead_tandem c category).getuc related).cases with
    ⟨⟨value, after⟩, ⟨_, _⟩, reads, reads', same, ahead⟩ | ⟨failure, reads, reads'⟩
  · rw [reads, reads']
    exact congrArg Except.ok (Prod.ext same.symm ahead)
  · rw [reads, reads']
    rfl

theorem filterUc_lookAhead (value : Int) :
    filterUc value (stream.lookAhead c category) =
      outcomeLookAhead c category (filterUc value stream) := by
  unfold filterUc
  split_ifs
  · rfl
  · rfl
  · rfl
  · rw [getuc_lookAhead]
    rcases getuc stream with failure | ⟨clow, after⟩
    · rfl
    · show (if _ then _ else _) = outcomeLookAhead c category (if _ then _ else _)
      split <;> rfl
  · rfl

/-- `getucFiltered` neither uses nor changes the code point that the cluster reader put aside. -/
theorem getucFiltered_lookAhead :
    getucFiltered (stream.lookAhead c category) =
      outcomeLookAhead c category (getucFiltered stream) := by
  unfold getucFiltered
  change (if stream.nextChar ≥ 0 then _ else _) = outcomeLookAhead c category (if _ then _ else _)
  split
  · exact filterUc_lookAhead { stream with nextChar := -1 } c category _
  · rw [getuc_lookAhead]
    rcases getuc stream with failure | ⟨value, after⟩
    · rfl
    · exact filterUc_lookAhead after c category value

end LookAhead

/-! ### The code points of a stream -/

/-- The results of successive calls of `getucFiltered`, up to the first negative one. -/
def readCharacters : Nat → Stream → Except Failure (List Int)
  | 0, _ => .error .diverges
  | fuel + 1, stream => do
    let (c, stream) ← getucFiltered stream
    if c < 0 then .ok []
    else do
      let characters ← readCharacters fuel stream
      .ok (c :: characters)

/-- Characters are read until the stream ends, or the reader fails. -/
theorem readCharacters_meets {fuel : Nat} {stream : Stream} (enough : stream.load < fuel) :
    Meets Failure.OfText (fun _ => True) (readCharacters fuel stream) := by
  induction fuel generalizing stream with
  | zero => exact absurd enough (Nat.not_lt_zero _)
  | succ fuel inductionHypothesis =>
    unfold readCharacters
    refine (bytes_lawful.getucFiltered trivial).bind ?_
    rintro ⟨c, after⟩ ⟨-, less, -⟩
    dsimp only at less ⊢
    split
    · trivial
    · next isChar =>
      rw [if_pos (by omega)] at less
      exact (inductionHypothesis (by omega)).bind fun _ _ => trivial

theorem clearEof_same (stream : Stream) : (StreamVtable.clearEof stream).remaining =
    stream.remaining ∧ (StreamVtable.clearEof stream).nextChar = stream.nextChar := by
  show stream.clearEof.remaining = _ ∧ stream.clearEof.nextChar = _
  unfold Stream.clearEof
  cases stream.kind <;> exact ⟨rfl, rfl⟩

theorem map_cons_bind {Value : Type} (c : Int) (characters : Except Failure (List Int))
    (use : List Int → Value) :
    (do let characters ← characters; .ok (c :: characters)).map use =
      characters.map fun characters => use (c :: characters) := by
  cases characters <;> rfl

theorem getucFiltered_atEnd {stream : Stream} (ends : stream.remaining = [])
    (noNext : stream.nextChar < 0) : ∃ after, getucFiltered stream = .ok (ueof, after) := by
  refine ⟨stream.getChar.2, ?_⟩
  rw [getucFiltered, if_neg (by omega), getuc, vtable_getChar, Stream.getChar, ends]
  cases stream.kind <;> rfl

/-! ### Cutting the code points -/

section Cuts

variable (locale : Locale) (table : List (List Nat))

/-- Two code points that stand in one cluster when they follow each other. -/
def joins (first second : Int) : Bool :=
  continues table (getClusterCategory locale first) (getClusterCategory locale second)

/-- The code points of a cluster, as `getClusterInternal` gathers them. -/
def gather (characters : List Int) : List UInt16 :=
  characters.foldl addUCS4ToUTF16Buffer []

theorem gather_snoc (characters : List Int) (c : Int) :
    gather (characters ++ [c]) = addUCS4ToUTF16Buffer (gather characters) c := by
  rw [gather, List.foldl_append, List.foldl_cons, List.foldl_nil, gather]

theorem gather_ne_nil {characters : List Int} (something : characters ≠ []) :
    gather characters ≠ [] := by
  obtain ⟨before, c, rfl⟩ := List.eq_nil_or_concat characters |>.resolve_left something
  rw [List.concat_eq_append, gather_snoc]
  unfold addUCS4ToUTF16Buffer
  split <;> simp

/-- The clusters of a text: it is cut between two neighbours exactly when they do not join. -/
def clustersOf (characters : List Int) : List (List UInt16) :=
  (characters.splitBy (joins locale table)).map gather

/-- The next call when a code point is put aside. -/
theorem readClusters_buffered {stream : Stream} {c : Int} {category fuel : Nat} (isChar : 0 ≤ c) :
    readClusters (getClusterInternal locale table) (fuel + 1) (stream.lookAhead c category) =
      (do
        let (buffer, stream) ← appendCluster locale table (stream.remaining.length + 2) category
          (stream.lookAhead c category) []
        let clusters ← readClusters (getClusterInternal locale table) fuel stream
        .ok (buffer :: clusters)) := by
  have notNegative : ¬ c < 0 := by omega
  have starts : bufferChar locale (stream.lookAhead c category) =
      .ok (c, category, stream.lookAhead c category) := if_neg notNegative
  rw [readClusters, getClusterInternal, starts, ok_bind]
  dsimp only
  rw [if_neg notNegative, bind_assoc]
  rfl

/-- The next call when no code point is left. -/
theorem readClusters_atEnd {stream : Stream} {fuel : Nat} (ends : stream.remaining = [])
    (noNext : stream.nextChar < 0) (empty : stream.bufferedChar < 0) :
    readClusters (getClusterInternal locale table) (fuel + 1) stream = .ok [] := by
  obtain ⟨after, reads⟩ := getucFiltered_atEnd ends noNext
  rw [readClusters, getClusterInternal, bufferChar, if_pos empty, reads]
  rfl

/-- A call that has gathered `group` and holds `c`, and the calls after it. The induction is on
the code points to come: each of them is added to the group, or starts the next one. -/
theorem appendCluster_clusters {fuel clusterFuel readFuel category : Nat} {stream : Stream}
    {c : Int} {group : List Int} (chain : (group ++ [c]).IsChain fun first second =>
      joins locale table first second) (isChar : 0 ≤ c)
    (enough : stream.load < fuel) (enoughClusters : stream.load < clusterFuel)
    (enoughReads : stream.load < readFuel) :
    (do
      let (buffer, stream) ← appendCluster locale table fuel (getClusterCategory locale c)
        (stream.lookAhead c category) (gather group)
      let clusters ← readClusters (getClusterInternal locale table) clusterFuel stream
      .ok (buffer :: clusters)) =
    (readCharacters readFuel stream).map fun characters =>
      clustersOf locale table (group ++ c :: characters) := by
  induction readFuel generalizing stream c category group fuel clusterFuel with
  | zero => exact absurd enoughReads (Nat.not_lt_zero _)
  | succ readFuel inductionHypothesis =>
    obtain ⟨fuel, rfl⟩ := exists_round enough
    obtain ⟨clusterFuel, rfl⟩ := exists_round enoughClusters
    rw [appendCluster, getucFiltered_lookAhead, readCharacters]
    rcases reads : getucFiltered stream with failure | ⟨next, after⟩
    · rfl
    have less := getucFiltered_takes reads
    rw [show outcomeLookAhead c category (.ok (next, after)) =
      .ok (next, after.lookAhead c category) from rfl, ok_bind, ok_bind]
    dsimp only
    have gathered : addUCS4ToUTF16Buffer (gather group) (stream.lookAhead c category).bufferedChar =
      gather (group ++ [c]) := (gather_snoc group c).symm
    rw [gathered]
    by_cases negative : next < 0
    · obtain ⟨ends, noNext⟩ :=
        ((bytes_lawful.getucFiltered trivial).of_ok reads).2.2 negative
      rw [if_pos negative, if_pos negative, ok_bind]
      dsimp only
      have ended := @readClusters_atEnd locale table
        ((StreamVtable.clearEof (after.lookAhead c category)).lookAhead next 0) clusterFuel
        ((clearEof_same _).1.trans ends) ((clearEof_same _).2.trans_lt noNext) negative
      refine (congrArg (· >>= _) ended).trans ?_
      show _ = Except.ok (clustersOf locale table (group ++ [c]))
      rw [clustersOf, List.splitBy_of_isChain (by simp) chain]
      rfl
    · rw [if_pos (by omega)] at less
      rw [if_neg negative, if_neg negative]
      show (if joins locale table c next then _ else _) >>= _ = _
      have snoc : ∀ characters : List Int, group ++ c :: next :: characters =
          (group ++ [c]) ++ next :: characters := fun characters => by simp
      by_cases joined : joins locale table c next = true
      · rw [if_pos joined]
        have longer : (group ++ [c] ++ [next]).IsChain fun first second =>
            joins locale table first second := by
          refine chain.append (List.isChain_singleton next) fun last isLast first isFirst => ?_
          rw [List.getLast?_concat, Option.mem_some_iff] at isLast
          rw [List.head?_cons, Option.mem_some_iff] at isFirst
          rwa [← isLast, ← isFirst]
        have rest := @inductionHypothesis fuel (clusterFuel + 1) (getClusterCategory locale next)
          after next (group ++ [c]) longer (by omega) (by omega) (by omega) (by omega)
        refine rest.trans ?_
        rw [map_cons_bind]
        simp only [snoc]
      · rw [if_neg joined, ok_bind]
        dsimp only
        refine (congrArg (· >>= _) (readClusters_buffered locale table (by omega))).trans ?_
        have rest := @inductionHypothesis (after.remaining.length + 2) clusterFuel
          (getClusterCategory locale next) after next [] (List.isChain_singleton next) (by omega)
          (load_lt after) (by omega) (by omega)
        refine (congrArg (· >>= _) rest).trans ?_
        rw [map_cons_bind]
        cases readCharacters readFuel after with
        | error failure => rfl
        | ok characters =>
          have cut : ∀ last ∈ (group ++ [c]).getLast?, joins locale table last next = false := by
            intro last isLast
            rw [List.getLast?_concat, Option.mem_some_iff] at isLast
            rwa [← isLast, ← Bool.not_eq_true]
          show Except.ok (gather (group ++ [c]) :: clustersOf locale table (next :: characters)) =
            Except.ok (clustersOf locale table (group ++ c :: next :: characters))
          rw [snoc, clustersOf, clustersOf, List.splitBy_append_cons characters cut,
            List.splitBy_of_isChain (by simp) chain]
          rfl

/-- Cluster reading partitions the text. The clusters of a stream on which no code point is put
aside are its code points, cut exactly where the table entry of two neighbours is 0, or the
reader fails where `getucFiltered` does. No cluster is empty. -/
theorem readClusters_partitions {stream : Stream} (fresh : stream.bufferedChar < 0) {fuel : Nat}
    (enough : stream.load < fuel) :
    readClusters (getClusterInternal locale table) fuel stream =
        (readCharacters fuel stream).map (clustersOf locale table) ∧
      Meets Failure.OfText (fun characters => [] ∉ clustersOf locale table characters)
        (readCharacters fuel stream) := by
  refine ⟨?_, (readCharacters_meets enough).mono fun characters _ => ?_⟩
  · obtain ⟨fuel, rfl⟩ := exists_round enough
    rw [readClusters, getClusterInternal, bufferChar, if_pos fresh, readCharacters]
    rcases reads : getucFiltered stream with failure | ⟨c, after⟩
    · rfl
    have less := getucFiltered_takes reads
    rw [ok_bind, ok_bind, ok_bind]
    dsimp only
    by_cases negative : c < 0
    · rw [if_pos negative, if_pos negative]
      rfl
    · rw [if_neg negative, if_neg negative, map_cons_bind, bind_assoc]
      rw [if_pos (by omega)] at less
      refine @appendCluster_clusters locale table (after.remaining.length + 2) fuel fuel
        after.lastClusterCategory after c [] (List.isChain_singleton c) (by omega)
        (load_lt after) (by omega) (by omega)
  · rw [clustersOf, List.mem_map]
    rintro ⟨group, isGroup, isEmpty⟩
    exact gather_ne_nil (List.ne_nil_of_mem_splitBy isGroup) isEmpty

end Cuts

/-- A locale in which the acute accent extends what stands before it. -/
def accentLocale : Locale :=
  { cLocale with graphemeClusterBreak := fun c => if c = 0x301 then 3 else 0 }

theorem readClusters_partitions_accent :
    readClusters (getClusterInternal accentLocale clusterContinuationTable) 5
      (newFileStream [0x65, 0xCC, 0x81, 0x66]) = .ok [[0x65, 0x301], [0x66]] := by
  rw [(readClusters_partitions accentLocale clusterContinuationTable (by decide) (by decide)).1]
  rfl

end Dwdiff
