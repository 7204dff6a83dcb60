/-
This file models the cluster reader of `unicode.c`: code points are gathered
into one UTF-16 buffer as long as a table of grapheme break classes says that
the next one continues the cluster. The code point that ends a cluster waits in
the stream for the next call.
-/

import Dwdiff.Library.Outcome
import Dwdiff.Options
import Dwdiff.Unicode

namespace Dwdiff

open Outcome

variable {c : Int}

/-- `MAX_GCB_CLASS`. -/
def maxGcbClass : Nat := 13

/-- `clusterContinuationTable`, with `CRLF_GRAPHEME_CLUSTER_BREAK` equal to 0. -/
def clusterContinuationTable : List (List Nat) :=
  [[0, 0, 0, 1, 0, 0, 0, 0, 0, 0, 1, 0, 0],
   [0, 0, 0, 0, 0, 0, 0, 0, 0, 0, 0, 0, 0],
   [0, 0, 0, 0, 0, 0, 0, 0, 0, 0, 0, 0, 0],
   [0, 0, 0, 1, 0, 0, 0, 0, 0, 0, 1, 0, 0],
   [0, 0, 0, 1, 1, 0, 1, 1, 0, 1, 1, 0, 0],
   [0, 0, 0, 0, 0, 0, 0, 0, 0, 0, 0, 0, 0],
   [0, 0, 0, 1, 0, 0, 0, 0, 1, 1, 1, 0, 0],
   [0, 0, 0, 1, 0, 0, 0, 0, 1, 0, 1, 0, 0],
   [0, 0, 0, 1, 0, 0, 0, 0, 1, 0, 1, 0, 0],
   [0, 0, 0, 1, 0, 0, 0, 0, 1, 1, 1, 0, 0],
   [0, 0, 0, 1, 0, 0, 0, 0, 0, 0, 1, 0, 0],
   [1, 0, 0, 1, 1, 0, 1, 1, 1, 1, 1, 1, 1],
   [0, 0, 0, 1, 0, 0, 0, 0, 0, 0, 1, 0, 1]]

def backspaceContinuationTable : List (List Nat) :=
  [[0, 0, 0, 1, 0, 0, 0, 0, 0, 0, 0, 0, 0],
   [0, 0, 0, 0, 0, 0, 0, 0, 0, 0, 0, 0, 0],
   [0, 0, 0, 0, 0, 0, 0, 0, 0, 0, 0, 0, 0],
   [0, 0, 0, 1, 0, 0, 0, 0, 0, 0, 0, 0, 0],
   [0, 0, 0, 1, 1, 0, 1, 1, 0, 1, 0, 0, 0],
   [0, 0, 0, 0, 0, 0, 0, 0, 0, 0, 0, 0, 0],
   [0, 0, 0, 1, 0, 0, 0, 0, 1, 1, 0, 0, 0],
   [0, 0, 0, 1, 0, 0, 0, 0, 1, 0, 0, 0, 0],
   [0, 0, 0, 1, 0, 0, 0, 0, 1, 0, 0, 0, 0],
   [0, 0, 0, 1, 0, 0, 0, 0, 1, 1, 0, 0, 0],
   [0, 0, 0, 0, 0, 0, 0, 0, 0, 0, 0, 0, 0],
   [0, 0, 0, 0, 0, 0, 0, 0, 0, 0, 0, 0, 0],
   [0, 0, 0, 0, 0, 0, 0, 0, 0, 0, 0, 0, 0]]

/-- `continuationTable[last][new]`, as a condition. -/
def continues (continuationTable : List (List Nat)) (last new : Nat) : Bool :=
  (continuationTable.getD last []).getD new 0 != 0

/-- `getClusterCategory`: classes this version does not know are folded to `U_GCB_OTHER`. -/
def getClusterCategory (locale : Locale) (c : Int) : Nat :=
  let category := locale.graphemeClusterBreak c
  if category ≥ maxGcbClass then 0 else category

section Readers

variable {Source : Type} [StreamVtable Source]

/-- The loop of `getClusterInternal`, from the buffered code point on. -/
def appendCluster (locale : Locale) (continuationTable : List (List Nat)) :
    Nat → Nat → Stream Source → List UInt16 → Except Failure (List UInt16 × Stream Source)
  | 0, _, _, _ => .error .diverges
  | fuel + 1, category, stream, buffer => do
    let buffer := addUCS4ToUTF16Buffer buffer stream.bufferedChar
    let (c, stream) ← getucFiltered stream
    if c < 0 then
      .ok (buffer, { StreamVtable.clearEof stream with
        bufferedChar := c, lastClusterCategory := 0 })
    else
      let newCategory := getClusterCategory locale c
      let stream := { stream with bufferedChar := c, lastClusterCategory := newCategory }
      if continues continuationTable category newCategory then
        appendCluster locale continuationTable fuel newCategory stream buffer
      else
        .ok (buffer, stream)

/-- The code point a cluster starts with, its category, and the stream that buffers it. -/
def bufferChar (locale : Locale) (stream : Stream Source) :
    Except Failure (Int × Nat × Stream Source) :=
  if stream.bufferedChar < 0 then do
    let (c, stream) ← getucFiltered stream
    .ok (c, getClusterCategory locale c, { stream with bufferedChar := c })
  else .ok (stream.bufferedChar, stream.lastClusterCategory, stream)

/-- `getClusterInternal`: the cluster, or `none` at the end of the stream. -/
def getClusterInternal (locale : Locale) (continuationTable : List (List Nat))
    (stream : Stream Source) : Except Failure (Option (List UInt16) × Stream Source) := do
  let (c, category, stream) ← bufferChar locale stream
  if c < 0 then .ok (none, stream)
  else do
    let (buffer, stream) ←
      appendCluster locale continuationTable (StreamVtable.supply stream.source + 2) category
        stream []
    .ok (some buffer, stream)

def getCluster (locale : Locale) :
    Stream Source → Except Failure (Option (List UInt16) × Stream Source) :=
  getClusterInternal locale clusterContinuationTable

def getBackspaceCluster (locale : Locale) :
    Stream Source → Except Failure (Option (List UInt16) × Stream Source) :=
  getClusterInternal locale backspaceContinuationTable

end Readers

/-! ### How reading can fail -/

/-- The failures of the functions that read and convert characters. -/
def Failure.OfText (failure : Failure) : Prop :=
  failure = .assertion "file->bufferIndex > 0" ∨
  failure = .assertion "stream->data.string.string[--stream->data.string.index] == c" ∨
  failure = .assertion "*highSurrogate != 0" ∨
  failure = .fatal "Error reading back input\n"

theorem assert_meets {allowed : Failure → Prop} {condition : Bool} {text : String}
    (isAllowed : allowed (.assertion text)) :
    Meets allowed (fun _ => condition = true) (assert condition text) := by
  unfold assert
  split
  · next holds => exact holds
  · exact isAllowed

open StreamVtable (supply)
open Failure (OfText)

/-- What the filter joins lies beyond the basic plane. -/
theorem joined_ge {clow : Int} (nonneg : 0 ≤ c) (isHigh : land c 0xF800 = 0xD800)
    (least : -4 ≤ clow) (isLow : land clow 0xFC00 = 0xDC00) :
    0x10000 ≤ clow + c * 2 ^ 10 + 0x10000 - 0xD800 * 2 ^ 10 - 0xDC00 := by
  have high : land c 0xF800 ≤ c.toNat := Nat.le_trans Nat.and_le_left (by omega)
  have notError : 0 ≤ clow := by
    by_contra below
    obtain rfl | rfl | rfl | rfl : clow = -1 ∨ clow = -2 ∨ clow = -3 ∨ clow = -4 := by omega
    all_goals exact absurd isLow (by decide)
  have low : land clow 0xFC00 ≤ clow.toNat := Nat.le_trans Nat.and_le_left (by omega)
  omega

theorem IsError.code (isError : IsError c) : -4 ≤ c ∧ c ≠ ueof := by
  rcases isError with rfl | rfl | rfl <;> decide

/-- What the readers need of a vtable. They keep the relation between the data before and after,
every byte takes something from it, and none is returned only at the end. -/
structure Lawful {Source : Type} [StreamVtable Source] (Keeps : Source → Source → Prop)
    (Finished : Source → Prop) : Prop where
  trans : ∀ {first second third}, Keeps first second → Keeps second third → Keeps first third
  again : ∀ {first second}, Keeps first second → Keeps second second
  getChar : ∀ {stream : Stream Source}, Keeps stream.source stream.source →
    Meets OfText (fun result => ∃ source, result.2 = { stream with source := source } ∧
        Keeps stream.source source ∧
        supply source + (if result.1.isSome then 1 else 0) ≤ supply stream.source ∧
        (result.1 = none → Finished source)) (StreamVtable.getChar stream)
  ungetChar : ∀ {stream : Stream Source} (c : UInt8), Keeps stream.source stream.source →
    Meets OfText (fun after => ∃ source, after = { stream with source := source } ∧
        Keeps stream.source source ∧ supply source ≤ supply stream.source + 1)
      (StreamVtable.ungetChar stream c)
  clearEof : ∀ {stream : Stream Source}, Keeps stream.source stream.source →
    Finished stream.source → ∃ source, StreamVtable.clearEof stream =
      { stream with source := source } ∧ Keeps stream.source source ∧
      supply source = supply stream.source

section Laws

variable {Source : Type} [StreamVtable Source]

/-- What is left to be read, in bytes and characters put aside. -/
def Stream.load (stream : Stream Source) : Nat :=
  supply stream.source + if 0 ≤ stream.nextChar then 1 else 0

/-- What a reader of clusters has left: the stream's load, and the buffered character. -/
def Stream.weight (stream : Stream Source) : Nat :=
  stream.load + if 0 ≤ stream.bufferedChar then 1 else 0

theorem load_lt (stream : Stream Source) : stream.load < supply stream.source + 2 := by
  unfold Stream.load
  split <;> omega

variable {Keeps : Source → Source → Prop} {Finished : Source → Prop}
  (lawful : Lawful Keeps Finished) {stream : Stream Source}
  (reading : Keeps stream.source stream.source)

include lawful reading

/-- The loop of `getuc` behind the lead byte. -/
theorem Lawful.getucContinue (least bytesLeft retval : Nat) :
    Meets OfText (fun result => ∃ source, result.2 = { stream with source := source } ∧
        Keeps stream.source source ∧ supply source ≤ supply stream.source ∧ -4 ≤ result.1 ∧
        result.1 ≠ ueof) (Dwdiff.getucContinue least bytesLeft retval stream) := by
  induction bytesLeft generalizing retval stream with
  | zero =>
    unfold Dwdiff.getucContinue
    split
    · exact ⟨_, rfl, reading, Nat.le_refl _, IsError.code (Or.inl rfl)⟩
    · split
      · exact ⟨_, rfl, reading, Nat.le_refl _, IsError.code (Or.inr (Or.inr rfl))⟩
      · refine ⟨_, rfl, reading, Nat.le_refl _, ?_⟩
        show -4 ≤ (retval : Int) ∧ (retval : Int) ≠ -1
        omega
  | succ bytesLeft inductionHypothesis =>
    unfold Dwdiff.getucContinue
    refine (lawful.getChar reading).bind ?_
    rintro ⟨_ | char, _⟩ ⟨source, rfl, keeps, less, -⟩
    · exact ⟨source, rfl, keeps, less, IsError.code (Or.inr (Or.inl rfl))⟩
    · simp only [Option.isSome_some, if_true] at less
      dsimp only
      split
      · refine (lawful.ungetChar char (lawful.again keeps)).bind ?_
        rintro _ ⟨back, rfl, keeps', more⟩
        dsimp only at more
        exact ⟨back, rfl, lawful.trans keeps keeps', by omega,
          IsError.code (Or.inr (Or.inl rfl))⟩
      · refine (@inductionHypothesis { stream with source := source }
          (lawful.again keeps) _).mono ?_
        rintro ⟨c, _⟩ ⟨after, rfl, keeps', less', isCode⟩
        dsimp only at less'
        exact ⟨after, rfl, lawful.trans keeps keeps', by omega, isCode⟩

/-- `getuc` takes at least a byte, or finds the end. -/
theorem Lawful.getuc :
    Meets OfText (fun result => ∃ source, result.2 = { stream with source := source } ∧
        Keeps stream.source source ∧
        supply source + (if result.1 = ueof then 0 else 1) ≤ supply stream.source ∧
        -4 ≤ result.1 ∧ (result.1 = ueof → Finished source)) (Dwdiff.getuc stream) := by
  unfold Dwdiff.getuc
  refine (lawful.getChar reading).bind ?_
  rintro ⟨_ | char, _⟩ ⟨source, rfl, keeps, less, finished⟩
  · exact ⟨source, rfl, keeps, less, (by decide : -4 ≤ ueof), fun _ => finished rfl⟩
  · simp only [Option.isSome_some, if_true] at less
    have single : ∀ c : Int, -4 ≤ c ∧ c ≠ ueof → ∃ source', ({ stream with source := source } :
        Stream Source) = { stream with source := source' } ∧ Keeps stream.source source' ∧
        supply source' + (if c = ueof then 0 else 1) ≤ supply stream.source ∧ -4 ≤ c ∧
        (c = ueof → Finished source') := fun c ⟨least, isChar⟩ =>
      ⟨source, rfl, keeps, by rw [if_neg isChar]; exact less, least,
        fun isEnd => absurd isEnd isChar⟩
    have continued : ∀ least bytesLeft retval, Meets OfText (fun result => ∃ source',
        result.2 = { stream with source := source' } ∧ Keeps stream.source source' ∧
        supply source' + (if result.1 = ueof then 0 else 1) ≤ supply stream.source ∧
        -4 ≤ result.1 ∧ (result.1 = ueof → Finished source'))
        (Dwdiff.getucContinue least bytesLeft retval
          ({ stream with source := source } : Stream Source)) := by
      intro least bytesLeft retval
      refine (@Lawful.getucContinue _ _ _ _ lawful { stream with source := source }
        (lawful.again keeps) least bytesLeft retval).mono ?_
      rintro ⟨c, _⟩ ⟨after, rfl, keeps', less', least', isChar⟩
      dsimp only at less'
      exact ⟨after, rfl, lawful.trans keeps keeps', by rw [if_neg isChar]; omega,
        least', fun isEnd => absurd isEnd isChar⟩
    dsimp only
    split
    · exact single _ (by show -4 ≤ (char.toNat : Int) ∧ (char.toNat : Int) ≠ -1; omega)
    split
    · exact single _ (IsError.code (Or.inr (Or.inl rfl)))
    split
    · exact single _ (IsError.code (Or.inl rfl))
    split
    · exact continued _ _ _
    split
    · exact continued _ _ _
    split
    · exact continued _ _ _
    · exact single _ (IsError.code (Or.inr (Or.inr rfl)))

theorem Lawful.filterUc {first : Int} (noNext : stream.nextChar < 0) :
    Meets OfText (fun result => Keeps stream.source result.2.source ∧
        result.2.load + (if 0 ≤ result.1 then 1 else 0) ≤
          stream.load + (if first = ueof then 0 else 1) ∧
        (result.1 < 0 → first = ueof ∧ result.2 = stream)) (Dwdiff.filterUc first stream) := by
  have noLoad : stream.load = supply stream.source := by
    rw [Stream.load, if_neg (Int.not_le.mpr noNext), Nat.add_zero]
  have replaced : ¬ replacementCharacter < 0 := by decide
  unfold Dwdiff.filterUc
  by_cases isError : first < 0
  · rw [if_pos isError]
    by_cases atEnd : first = ueof
    · rw [if_pos atEnd, if_pos atEnd]
      exact ⟨reading, Nat.le_refl _, fun _ => ⟨atEnd, rfl⟩⟩
    · rw [if_neg atEnd, if_neg atEnd]
      exact ⟨reading, Nat.le_refl _, fun below => absurd below replaced⟩
  · rw [if_neg isError, if_neg (by unfold ueof; omega : first ≠ ueof)]
    split
    · next isHigh =>
      split
      · exact ⟨reading, Nat.le_refl _, fun below => absurd below replaced⟩
      · -- A high surrogate: the character after it is put aside or joined.
        refine (lawful.getuc reading).bind ?_
        rintro ⟨clow, _⟩ ⟨source, rfl, keeps, less, least, -⟩
        dsimp only at less least ⊢
        split
        · refine ⟨keeps, ?_, fun below => absurd below replaced⟩
          rw [noLoad, Stream.load, if_pos (by decide : 0 ≤ replacementCharacter)]
          by_cases waiting : 0 ≤ clow
          · rw [if_neg (by unfold ueof; omega : clow ≠ ueof)] at less
            rw [if_pos waiting]
            exact Nat.succ_le_succ less
          · rw [if_neg waiting]
            exact Nat.succ_le_succ (Nat.le_trans (Nat.le_add_right _ _) less)
        · next isLow =>
          have large := joined_ge (by omega) isHigh least (not_not.mp isLow)
          refine ⟨keeps, ?_, fun below => ?_⟩
          · rw [noLoad, Stream.load, if_neg (Int.not_le.mpr noNext)]
            dsimp only
            split <;> omega
          · dsimp only at below
            omega
    · refine ⟨reading, ?_, fun below => absurd below isError⟩
      dsimp only
      split <;> omega

/-- `getucFiltered` takes at least one character, or finds the end. -/
theorem Lawful.getucFiltered :
    Meets OfText (fun result => Keeps stream.source result.2.source ∧
        result.2.load + (if 0 ≤ result.1 then 1 else 0) ≤ stream.load ∧
        (result.1 < 0 → Finished result.2.source ∧ result.2.nextChar < 0))
      (Dwdiff.getucFiltered stream) := by
  unfold Dwdiff.getucFiltered
  split
  · next waiting =>
    have notEnd : stream.nextChar ≠ ueof := by unfold ueof; omega
    refine (@Lawful.filterUc _ _ _ _ lawful { stream with nextChar := -1 } reading stream.nextChar
      (by decide : (-1 : Int) < 0)).mono ?_
    rintro result ⟨keeps, less, atEnd⟩
    rw [if_neg notEnd] at less
    refine ⟨keeps, Nat.le_trans less (Nat.le_of_eq ?_), fun below => absurd (atEnd below).1 notEnd⟩
    rw [Stream.load, Stream.load, if_pos waiting, if_neg (by decide : ¬ (0 : Int) ≤ -1)]
  · next empty =>
    refine (lawful.getuc reading).bind ?_
    rintro ⟨first, _⟩ ⟨source, rfl, keeps, less, -, finished⟩
    refine (@Lawful.filterUc _ _ _ _ lawful { stream with source := source }
      (lawful.again keeps) first (Int.not_le.mp empty)).mono ?_
    rintro result ⟨keeps', less', atEnd⟩
    refine ⟨lawful.trans keeps keeps', Nat.le_trans less' ?_, fun below => ?_⟩
    · rw [Stream.load, Stream.load]
      dsimp only at less ⊢
      omega
    · obtain ⟨isEnd, same⟩ := atEnd below
      rw [same]
      exact ⟨finished isEnd, Int.not_le.mp empty⟩

variable (locale : Locale) (table : List (List Nat))

/-- A cluster has no more characters than the stream, so its loop ends. -/
theorem Lawful.appendCluster {fuel : Nat} (category : Nat) (buffer : List UInt16)
    (enough : stream.load < fuel) :
    Meets OfText (fun result => Keeps stream.source result.2.source ∧
        result.2.weight ≤ stream.load)
      (Dwdiff.appendCluster locale table fuel category stream buffer) := by
  induction fuel generalizing category stream buffer with
  | zero => exact absurd enough (Nat.not_lt_zero _)
  | succ fuel inductionHypothesis =>
    unfold Dwdiff.appendCluster
    refine (lawful.getucFiltered reading).bind ?_
    rintro ⟨c, next⟩ ⟨keeps, less, finished⟩
    dsimp only at keeps less finished ⊢
    split
    · next below =>
      obtain ⟨source, clears, keeps', same⟩ :=
        lawful.clearEof (lawful.again keeps) (finished below).1
      rw [clears]
      refine ⟨lawful.trans keeps keeps', ?_⟩
      rw [Stream.weight, if_neg (Int.not_le.mpr below)]
      show supply source + _ + 0 ≤ _
      rw [same]
      exact Nat.le_trans (Nat.le_add_right _ _) less
    · next isChar =>
      rw [if_pos (Int.not_lt.mp isChar)] at less
      split
      · have shorter : next.load < fuel :=
          Nat.lt_of_lt_of_le (Nat.lt_of_succ_le less) (Nat.le_of_lt_succ enough)
        refine (@inductionHypothesis { next with bufferedChar := c, lastClusterCategory := _ }
          (lawful.again keeps) _ _ shorter).mono ?_
        rintro result ⟨keeps', less'⟩
        exact ⟨lawful.trans keeps keeps', Nat.le_trans less' (Nat.le_trans (Nat.le_succ _) less)⟩
      · refine ⟨keeps, ?_⟩
        rw [Stream.weight, if_pos (Int.not_lt.mp isChar)]
        exact less

theorem Lawful.bufferChar :
    Meets OfText (fun result => Keeps stream.source result.2.2.source ∧
        result.2.2.load + (if 0 ≤ result.1 then 1 else 0) ≤ stream.weight ∧
        result.2.2.bufferedChar = result.1 ∧ (result.1 < 0 → Finished result.2.2.source))
      (Dwdiff.bufferChar locale stream) := by
  unfold Dwdiff.bufferChar
  split
  · refine (lawful.getucFiltered reading).bind fun (c, next) ⟨keeps, less, finished⟩ => ?_
    exact ⟨keeps, Nat.le_trans less (Nat.le_add_right _ _), rfl, fun below => (finished below).1⟩
  · next buffered =>
    exact ⟨reading, Nat.le_refl _, rfl, fun below => absurd below buffered⟩

/-- Every cluster takes at least one character. -/
theorem Lawful.getClusterInternal :
    Meets OfText (fun result => Keeps stream.source result.2.source ∧
        result.2.weight + (if result.1.isSome then 1 else 0) ≤ stream.weight ∧
        (result.1 = none → Finished result.2.source))
      (Dwdiff.getClusterInternal locale table stream) := by
  unfold Dwdiff.getClusterInternal
  refine (lawful.bufferChar reading locale).bind ?_
  rintro ⟨c, category, next⟩ ⟨keeps, less, isBuffered, finished⟩
  dsimp only at keeps less isBuffered finished ⊢
  split
  · next below =>
    refine ⟨keeps, ?_, fun _ => finished below⟩
    rw [Stream.weight, isBuffered]
    exact less
  · next isChar =>
    rw [if_pos (Int.not_lt.mp isChar)] at less
    refine (lawful.appendCluster (lawful.again keeps) locale table category []
      (load_lt next)).bind fun (buffer, after) ⟨keeps', less'⟩ => ?_
    exact ⟨lawful.trans keeps keeps', Nat.le_trans (Nat.succ_le_succ less') less, nofun⟩

end Laws

/-! ### Bytes at hand -/

/-- All bytes are at hand, and none is returned when none is left. -/
theorem bytes_lawful : Lawful (fun _ _ : Bytes => True) fun bytes => bytes.remaining = [] where
  trans := fun _ _ => trivial
  again := fun _ => trivial
  getChar := by
    intro stream _
    show ∃ source, stream.getChar.2 = _ ∧ _
    unfold Stream.getChar
    cases starts : stream.remaining with
    | nil => cases stream.kind <;> exact ⟨_, rfl, trivial, Nat.le_refl _, fun _ => starts⟩
    | cons byte rest =>
      refine ⟨_, rfl, trivial, ?_, nofun⟩
      show rest.length + 1 ≤ stream.remaining.length
      rw [starts]
      exact Nat.le_refl _
  ungetChar := by
    intro stream c _
    show Meets OfText _ (stream.ungetChar c)
    unfold Stream.ungetChar
    split
    · exact Or.inl rfl
    · exact ⟨_, rfl, trivial, Nat.le_refl _⟩
    · exact ⟨_, rfl, trivial, Nat.le_succ _⟩
    · exact (assert_meets (Or.inr (Or.inl rfl))).bind fun _ _ => ⟨_, rfl, trivial, Nat.le_refl _⟩
  clearEof := by
    intro stream _ _
    show ∃ source, stream.clearEof = _ ∧ _
    unfold Stream.clearEof
    cases stream.kind <;> exact ⟨_, rfl, trivial, rfl⟩

/-- `getucFiltered` takes at least one character, unless it returns an error. -/
theorem getucFiltered_takes {stream after : Stream}
    (reads : getucFiltered stream = .ok (c, after)) :
    after.load + (if 0 ≤ c then 1 else 0) ≤ stream.load :=
  ((bytes_lawful.getucFiltered trivial).of_ok reads).2.1

/-! ### Converting back -/

theorem filteredConvertToUTF8_meets (c highSurrogate : Int) :
    Meets Failure.OfText (fun _ => True) (filteredConvertToUTF8 c highSurrogate) := by
  unfold filteredConvertToUTF8
  split
  · trivial
  · split
    · exact (assert_meets (Or.inr (Or.inr (Or.inl rfl)))).bind fun _ _ => trivial
    · trivial

theorem filteredConvertAll_meets (units : List UInt16) (highSurrogate : Int) :
    Meets Failure.OfText (fun _ => True) (filteredConvertAll units highSurrogate) := by
  induction units generalizing highSurrogate with
  | nil => trivial
  | cons unit units inductionHypothesis =>
    unfold filteredConvertAll
    exact (filteredConvertToUTF8_meets _ _).bind fun _ _ =>
      (inductionHypothesis _).bind fun _ _ => trivial

end Dwdiff
