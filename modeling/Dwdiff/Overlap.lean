/-
This file models the character sets of the UTF-8 mode: the clusters that the
options add to the lists of delimiters and of whitespace, the sorting of the
lists, and the check that they do not overlap. The check passes over both lists
once, which is only right because they are sorted by the very comparison it uses.

`qsort` is a sorting function here. `UChar`s are compared as `memcmp` sees them
on the release targets, low byte first.
-/

import Dwdiff.Library.Comparison
import Dwdiff.ReadFile
import Dwdiff.StringStream

namespace Dwdiff

open Comparison Outcome

variable {stream after : Stream} {list : List (List UInt16)} {cluster : List UInt16}
  {locale : Locale}

/-! ### Comparing clusters -/

/-- `memcmp`, on two stretches of the same length. -/
def memcmp : List UInt8 → List UInt8 → Int
  | first :: firsts, second :: seconds =>
    if first = second then memcmp firsts seconds else first.toNat - second.toNat
  | _, _ => 0

/-- The two bytes of a `UChar` in memory. -/
def unitBytes (unit : UInt16) : List UInt8 := [unit.toUInt8, (unit >>> 8).toUInt8]

/-- The bytes of the data of a `UTF16Buffer`. -/
def bufferBytes (buffer : List UInt16) : List UInt8 := buffer.flatMap unitBytes

def compareUTF16Buffer (a b : List UInt16) : Int :=
  let minlen := if a.length < b.length then a.length else b.length
  let result := memcmp (bufferBytes (a.take minlen)) (bufferBytes (b.take minlen))
  if result ≠ 0 then result
  else if b.length > minlen then -1
  else if a.length > minlen then 1
  else 0

/-! ### Collecting characters -/

/-- The end of the loop of `addCharactersUTF8`: a cluster is added unless it is a duplicate. -/
def addCluster (list : List (List UInt16)) (converted : List UInt16) : List (List UInt16) :=
  if list.any fun other => compareUTF16Buffer converted other = 0 then list
  else list ++ [converted]

/-- The loop of `addCharactersUTF8`. -/
def addCharactersLoop (locale : Locale) :
    (fuel : Nat) → Stream → List (List UInt16) → Except Failure (List (List UInt16))
  | 0, _, _ => .error .diverges
  | fuel + 1, stream, list => do
    let (cluster, stream) ← getCluster locale stream
    match cluster with
    | none => .ok list
    | some original =>
      addCharactersLoop locale fuel stream (addCluster list (locale.normalize original))

def addCharactersUTF8 (locale : Locale) (chars : List UInt8) (list : List (List UInt16)) :
    Except Failure (List (List UInt16)) :=
  addCharactersLoop locale (chars.length + 1) (newStringStream chars) list

/-- `qsort` with `compareUTF16Buffer`. -/
def qsort (list : List (List UInt16)) : List (List UInt16) :=
  list.mergeSort fun a b => compareUTF16Buffer a b ≤ 0

def postProcessOptionsUTF8 (options : Options) (locale : Locale) : Except Failure Options := do
  let options := { options with
    delimiterList := qsort options.delimiterList
    whitespaceList := qsort options.whitespaceList }
  let category ← classifyChar (dispatchUTF8 options locale) ⟨0, [], [0x20], []⟩
  .ok (if category ≠ .whitespace then { options with wdiffOutput := true } else options)

/-! ### The check -/

def setsOverlap : Failure := .fatal "Whitespace and delimiter sets overlap\n"

/-- The first loop of `checkOverlapUTF8`. The second list is the whitespace list from the index
`j` on, which only grows. -/
def overlapLoop : (delimiters whitespaces : List (List UInt16)) → Except Failure Unit
  | [], _ => .ok ()
  | delimiter :: delimiters, whitespaces =>
    match whitespaces.dropWhile fun whitespace => compareUTF16Buffer delimiter whitespace > 0 with
    | [] => .ok ()
    | whitespace :: rest =>
      if compareUTF16Buffer delimiter whitespace = 0 then .error setsOverlap
      else overlapLoop delimiters (whitespace :: rest)

def isUTF16Punct (options : Options) (locale : Locale) (buffer : List UInt16) :
    Except Failure Bool :=
  utf16CharCondition (fun c => locale.generalCategoryMask c &&& options.punctuationMask != 0) buffer

/-- The second loop. -/
def punctuationLoop (options : Options) (locale : Locale) :
    (whitespaces : List (List UInt16)) → Except Failure Unit
  | [] => .ok ()
  | whitespace :: whitespaces => do
    if ← isUTF16Punct options locale whitespace then .error setsOverlap
    else punctuationLoop options locale whitespaces

def checkOverlapUTF8 (options : Options) (locale : Locale) : Except Failure Unit :=
  if !options.whitespaceSet then .ok ()
  else do
    overlapLoop options.delimiterList options.whitespaceList
    if options.punctuationMask = 0 then .ok ()
    else punctuationLoop options locale options.whitespaceList

/-! ### The order -/

/-- Bytes as `memcmp` compares them. -/
def byteDifference (first second : UInt8) : Int := first.toNat - second.toNat

theorem byteDifference_isTotalOrder : IsTotalOrder byteDifference where
  eq_iff first second := by
    rw [byteDifference, ← UInt8.toNat_inj]
    omega
  flip first second := by
    unfold byteDifference
    omega
  trans first second third := by
    unfold byteDifference
    omega

theorem unitBytes_injective {first second : UInt16} (same : unitBytes first = unitBytes second) :
    first = second := by
  obtain ⟨low, rest⟩ := List.cons.inj same
  have high := (List.cons.inj rest).1
  rw [← UInt8.toNat_inj] at low high
  rw [← UInt16.toNat_inj]
  rw [UInt16.toNat_toUInt8, UInt16.toNat_toUInt8] at low high
  rw [UInt16.toNat_shiftRight, UInt16.toNat_shiftRight, Nat.shiftRight_eq_div_pow,
    Nat.shiftRight_eq_div_pow] at high
  have small := first.toNat_lt
  have small' := second.toNat_lt
  have shift : (8 : UInt16).toNat % 16 = 8 := by decide
  rw [shift] at high
  omega

theorem bufferBytes_injective : Function.Injective bufferBytes := by
  intro first
  induction first with
  | nil =>
    rintro (_ | ⟨unit, second⟩) same
    · rfl
    · exact absurd same (by simp [bufferBytes, unitBytes])
  | cons unit first inductionHypothesis =>
    rintro (_ | ⟨unit', second⟩) same
    · exact absurd same (by simp [bufferBytes, unitBytes])
    · rw [bufferBytes, bufferBytes, List.flatMap_cons, List.flatMap_cons] at same
      obtain ⟨sameUnit, sameRest⟩ := List.append_inj same rfl
      rw [unitBytes_injective sameUnit, inductionHypothesis sameRest]

theorem bufferBytes_append (first second : List UInt16) :
    bufferBytes (first ++ second) = bufferBytes first ++ bufferBytes second :=
  List.flatMap_append

theorem bufferBytes_length (buffer : List UInt16) :
    (bufferBytes buffer).length = buffer.length * 2 := by
  induction buffer with
  | nil => rfl
  | cons unit buffer inductionHypothesis =>
    rw [bufferBytes, List.flatMap_cons, ← bufferBytes, List.length_append, inductionHypothesis,
      List.length_cons, Nat.succ_mul, Nat.add_comm]
    rfl

theorem memcmp_eq : ∀ {firsts seconds : List UInt8}, firsts.length = seconds.length →
    memcmp firsts seconds = lexicographic byteDifference firsts seconds
  | [], [], _ => rfl
  | first :: firsts, second :: seconds, sameLength => by
    rw [memcmp, lexicographic, memcmp_eq (Nat.succ.inj sameLength)]
    by_cases same : first = second
    · rw [if_pos same, if_neg (not_not_intro ((byteDifference_isTotalOrder.eq_iff _ _).mpr same))]
    · rw [if_neg same, if_pos (mt (byteDifference_isTotalOrder.eq_iff _ _).mp same)]
      rfl

/-- The comparison looks for the first byte that differs, in the two buffers as a whole. -/
theorem compareUTF16Buffer_eq (a b : List UInt16) :
    compareUTF16Buffer a b = lexicographic byteDifference (bufferBytes a) (bufferBytes b) := by
  unfold compareUTF16Buffer
  dsimp only
  obtain ⟨minlen, isMin⟩ : ∃ minlen, minlen = if a.length < b.length then a.length else b.length :=
    ⟨_, rfl⟩
  rw [← isMin]
  have sameLength : (bufferBytes (a.take minlen)).length =
      (bufferBytes (b.take minlen)).length := by
    rw [bufferBytes_length, bufferBytes_length, List.length_take, List.length_take]
    split at isMin <;> omega
  have fronts := lexicographic_append byteDifference sameLength (bufferBytes (a.drop minlen))
    (bufferBytes (b.drop minlen))
  rw [← bufferBytes_append, ← bufferBytes_append, List.take_append_drop, List.take_append_drop]
    at fronts
  rw [fronts, memcmp_eq sameLength]
  -- One of the buffers ends here; the other one is greater if it goes on.
  have rests : (if b.length > minlen then -1 else if a.length > minlen then 1 else 0) =
      lexicographic byteDifference (bufferBytes (a.drop minlen)) (bufferBytes (b.drop minlen)) := by
    have lengthA := List.length_drop (i := minlen) (l := a)
    have lengthB := List.length_drop (i := minlen) (l := b)
    cases restA : a.drop minlen with
    | nil =>
      rw [restA, List.length_nil] at lengthA
      cases restB : b.drop minlen with
      | nil =>
        rw [restB, List.length_nil] at lengthB
        rw [if_neg (by omega), if_neg (by omega)]
        rfl
      | cons unit rest =>
        rw [restB, List.length_cons] at lengthB
        rw [if_pos (by omega)]
        rfl
    | cons unit rest =>
      rw [restA, List.length_cons] at lengthA
      have endsB : b.length = minlen := by split at isMin <;> omega
      rw [if_neg (by omega), if_pos (by omega),
        List.drop_eq_nil_of_le (by omega : b.length ≤ minlen)]
      rfl
  rw [rests]

/-- `compareUTF16Buffer` is a total order. -/
theorem compareUTF16Buffer_isTotalOrder : IsTotalOrder compareUTF16Buffer := by
  have order := byteDifference_isTotalOrder.lexicographic.comap bufferBytes_injective
  have same : compareUTF16Buffer = fun a b =>
      lexicographic byteDifference (bufferBytes a) (bufferBytes b) :=
    funext fun a => funext fun b => compareUTF16Buffer_eq a b
  rwa [same]

/-! ### The lists -/

theorem sorted_qsort (list : List (List UInt16)) : Sorted compareUTF16Buffer (qsort list) := by
  have sorted := @List.pairwise_mergeSort _ (fun a b => decide (compareUTF16Buffer a b ≤ 0))
    (fun a b c first second => ?_) (fun a b => ?_) list
  · exact sorted.imp fun atMost => of_decide_eq_true atMost
  · exact decide_eq_true (compareUTF16Buffer_isTotalOrder.trans a b c (of_decide_eq_true first)
      (of_decide_eq_true second))
  · simpa using compareUTF16Buffer_isTotalOrder.total a b

theorem mem_qsort : cluster ∈ qsort list ↔ cluster ∈ list :=
  (List.mergeSort_perm list _).mem_iff

theorem overlapLoop_eq (delimiters whitespaces : List (List UInt16)) :
    overlapLoop delimiters whitespaces =
      if meet compareUTF16Buffer delimiters whitespaces then .error setsOverlap else .ok () := by
  induction delimiters generalizing whitespaces with
  | nil => rfl
  | cons delimiter delimiters inductionHypothesis =>
    unfold overlapLoop meet
    cases whitespaces.dropWhile fun whitespace => compareUTF16Buffer delimiter whitespace > 0 with
    | nil => rfl
    | cons whitespace rest =>
      dsimp only
      by_cases same : compareUTF16Buffer delimiter whitespace = 0
      · simp only [if_pos same]
        rfl
      · simp only [if_neg same]
        exact inductionHypothesis _

/-- The units of a UTF-16 string are joined without a high surrogate left over at its end. -/
def Paired (units : List UInt16) : Prop := ∃ codes, utf16CodePoints units = .ok codes

/-- All the code points of a cluster are punctuation or symbols. -/
def OnlyPunctuation (options : Options) (locale : Locale) (cluster : List UInt16) : Prop :=
  ∃ codes, utf16CodePoints cluster = .ok codes ∧
    ∀ c ∈ codes, locale.generalCategoryMask c &&& options.punctuationMask ≠ 0

theorem isUTF16Punct_eq (options : Options) (locale : Locale) (paired : Paired cluster) :
    ∃ answer, isUTF16Punct options locale cluster = .ok answer ∧
      (answer = true ↔ OnlyPunctuation options locale cluster) := by
  obtain ⟨codes, joined⟩ := paired
  refine ⟨_, utf16CharCondition_eq _ cluster codes joined, ?_⟩
  rw [List.all_eq_true, OnlyPunctuation]
  constructor
  · exact fun all => ⟨codes, joined, fun c isCode => bne_iff_ne.mp (all c isCode)⟩
  · rintro ⟨codes', joined', all⟩ c isCode
    rw [joined] at joined'
    cases joined'
    exact bne_iff_ne.mpr (all c isCode)

theorem punctuationLoop_eq (options : Options) (locale : Locale) {whitespaces : List (List UInt16)}
    (paired : ∀ cluster ∈ whitespaces, Paired cluster) :
    (punctuationLoop options locale whitespaces = .error setsOverlap ∧
      ∃ cluster ∈ whitespaces, OnlyPunctuation options locale cluster) ∨
    (punctuationLoop options locale whitespaces = .ok () ∧
      ∀ cluster ∈ whitespaces, ¬ OnlyPunctuation options locale cluster) := by
  induction whitespaces with
  | nil => exact Or.inr ⟨rfl, by simp⟩
  | cons whitespace whitespaces inductionHypothesis =>
    obtain ⟨first, others⟩ := List.forall_mem_cons.mp paired
    obtain ⟨answer, reads, only⟩ := isUTF16Punct_eq options locale first
    unfold punctuationLoop
    rw [reads, ok_bind]
    cases answer with
    | true => exact Or.inl ⟨rfl, whitespace, List.mem_cons_self, only.mp rfl⟩
    | false =>
      have plain : ¬ OnlyPunctuation options locale whitespace :=
        fun isOnly => Bool.false_ne_true (only.mpr isOnly)
      rcases inductionHypothesis others with ⟨reports, cluster, isMember, isOnly⟩ | ⟨silent, none⟩
      · exact Or.inl ⟨reports, cluster, List.mem_cons_of_mem _ isMember, isOnly⟩
      · exact Or.inr ⟨silent, List.forall_mem_cons.mpr ⟨plain, none⟩⟩

/-- What the check must find. -/
def Overlaps (options : Options) (locale : Locale) : Prop :=
  (∃ cluster, cluster ∈ options.delimiterList ∧ cluster ∈ options.whitespaceList) ∨
  (options.punctuationMask ≠ 0 ∧
    ∃ cluster ∈ options.whitespaceList, OnlyPunctuation options locale cluster)

theorem checkOverlapUTF8_eq {options : Options} {locale : Locale}
    (set : options.whitespaceSet = true)
    (sorted : Sorted compareUTF16Buffer options.delimiterList)
    (sorted' : Sorted compareUTF16Buffer options.whitespaceList)
    (paired : ∀ cluster ∈ options.whitespaceList, Paired cluster) :
    (checkOverlapUTF8 options locale = .error setsOverlap ∧ Overlaps options locale) ∨
    (checkOverlapUTF8 options locale = .ok () ∧ ¬ Overlaps options locale) := by
  have common := meet_iff compareUTF16Buffer_isTotalOrder sorted sorted'
  rw [checkOverlapUTF8, if_neg (by rw [set]; decide), overlapLoop_eq]
  by_cases found : meet compareUTF16Buffer options.delimiterList options.whitespaceList = true
  · rw [if_pos found]
    exact Or.inl ⟨rfl, Or.inl (common.mp found)⟩
  · rw [if_neg found, ok_bind]
    have apart := mt common.mpr found
    by_cases disabled : options.punctuationMask = 0
    · rw [if_pos disabled]
      exact Or.inr ⟨rfl, fun overlaps => overlaps.elim apart fun ⟨enabled, _⟩ => enabled disabled⟩
    · rw [if_neg disabled]
      rcases punctuationLoop_eq options locale paired with ⟨reports, some⟩ | ⟨silent, none⟩
      · exact Or.inl ⟨reports, Or.inr ⟨disabled, some⟩⟩
      · refine Or.inr ⟨silent, fun overlaps => overlaps.elim apart ?_⟩
        rintro ⟨-, cluster, isMember, isOnly⟩
        exact none cluster isMember isOnly

/-! ### Collected clusters are UTF-16 strings -/

theorem utf16CodePoints_append {first second : List UInt16} {codes : List Nat}
    (joined : utf16CodePoints first = .ok codes) :
    utf16CodePoints (first ++ second) = (utf16CodePoints second).map (codes ++ ·) := by
  induction first using utf16CodePoints.induct generalizing codes with
  | case1 =>
    cases joined
    rw [List.nil_append]
    cases utf16CodePoints second <;> rfl
  | case2 unit high =>
    rw [utf16CodePoints.eq_def] at joined
    simp [high] at joined
  | case3 unit high low units inductionHypothesis =>
    rw [utf16CodePoints.eq_def] at joined
    simp only [high, if_true] at joined
    obtain ⟨more, rest, joined⟩ := bind_eq_ok.mp joined
    cases joined
    rw [List.cons_append, List.cons_append, utf16CodePoints.eq_def]
    simp only [high, if_true]
    rw [inductionHypothesis rest]
    cases utf16CodePoints second <;> rfl
  | case4 unit units plain inductionHypothesis =>
    rw [utf16CodePoints.eq_def] at joined
    simp only [plain, if_false] at joined
    obtain ⟨more, rest, joined⟩ := bind_eq_ok.mp joined
    cases joined
    rw [List.cons_append, utf16CodePoints.eq_def]
    simp only [plain, if_false]
    rw [inductionHypothesis rest]
    cases utf16CodePoints second <;> rfl

theorem Paired.append {first second : List UInt16} (paired : Paired first)
    (paired' : Paired second) : Paired (first ++ second) := by
  obtain ⟨codes, joined⟩ := paired
  obtain ⟨codes', joined'⟩ := paired'
  exact ⟨codes ++ codes', by rw [utf16CodePoints_append joined, joined']; rfl⟩

/-- A character that is no surrogate. -/
def NoSurrogate (c : Int) : Prop := ¬ (IsHigh c ∨ IsLow c)

theorem paired_single {unit : UInt16} (plain : unit.toNat &&& 0xFC00 ≠ 0xD800) : Paired [unit] := by
  refine ⟨[unit.toNat], ?_⟩
  rw [utf16CodePoints.eq_def]
  simp only [plain, if_false]
  rfl

theorem paired_pair {high : UInt16} (isHigh : high.toNat &&& 0xFC00 = 0xD800) (low : UInt16) :
    Paired [high, low] := by
  refine ⟨[(high.toNat &&& 0x3FF) <<< 10 + 0x10000 + (low.toNat &&& 0x3FF)], ?_⟩
  rw [utf16CodePoints.eq_def]
  simp only [isHigh, if_true]
  rfl

theorem addUCS4ToUTF16Buffer_paired {buffer : List UInt16} (paired : Paired buffer) {c : Int}
    (isChar : 0 ≤ c) (noSurrogate : NoSurrogate c) : Paired (addUCS4ToUTF16Buffer buffer c) := by
  unfold addUCS4ToUTF16Buffer
  split
  · refine paired.append ?_
    generalize UInt16.ofInt (0xD800 - (0x10000 / 2 ^ 10) + c / 2 ^ 10) = high
    have field : land c 0x3FF < 1024 := Nat.lt_succ_of_le Nat.and_le_right
    have low : (UInt16.ofNat (0xDC00 ||| land c 0x3FF)).toNat &&& 0xFC00 ≠ 0xD800 := by
      rw [show 0xDC00 ||| land c 0x3FF = 55 * 2 ^ 10 + land c 0x3FF from
        BitMask.or_field 55 _ 10 field, toNat_ofNat_unit _ (by omega), and_FC00]
      omega
    by_cases isHigh : high.toNat &&& 0xFC00 = 0xD800
    · exact paired_pair isHigh _
    · exact (paired_single isHigh).append (paired_single low)
  · next small =>
    refine paired.append (paired_single ?_)
    obtain ⟨code, rfl⟩ := Int.eq_ofNat_of_zero_le isChar
    unfold NoSurrogate IsHigh IsLow at noSurrogate
    rw [ofInt_natCast, UInt16.toNat_ofNat', and_FC00]
    omega

/-- `getucFiltered` returns no surrogates. -/
theorem getucFiltered_noSurrogate {c : Int} (reads : getucFiltered stream = .ok (c, after)) :
    NoSurrogate c := by
  obtain ⟨first, between, reads⟩ : ∃ first between, filterUc first between = .ok (c, after) := by
    unfold getucFiltered at reads
    split at reads
    · exact ⟨_, _, reads⟩
    · obtain ⟨⟨first, between⟩, -, reads⟩ := bind_eq_ok.mp reads
      exact ⟨first, between, reads⟩
  unfold filterUc at reads
  unfold NoSurrogate IsHigh IsLow
  split at reads
  · have isValue := (Prod.mk.inj (Except.ok.inj reads)).1
    unfold ueof replacementCharacter at isValue
    split at isValue <;> omega
  · next nonneg =>
    split at reads
    · next isHigh =>
      split at reads
      · have isValue := (Prod.mk.inj (Except.ok.inj reads)).1
        unfold replacementCharacter at isValue
        omega
      · obtain ⟨⟨clow, last⟩, second, reads⟩ := bind_eq_ok.mp reads
        dsimp only at reads
        split at reads
        · have isValue := (Prod.mk.inj (Except.ok.inj reads)).1
          unfold replacementCharacter at isValue
          omega
        · next isLow =>
          have isValue := (Prod.mk.inj (Except.ok.inj reads)).1
          have large := joined_ge (by omega) isHigh (getuc_ge _ _ _ second) (not_not.mp isLow)
          omega
    · next plain =>
      cases reads
      intro isSurrogate
      exact plain ((land_surrogate_iff (by omega) (by omega)).mpr isSurrogate)

theorem appendCluster_paired {table : List (List Nat)} {fuel category : Nat}
    {buffer : List UInt16} (paired : Paired buffer) (isChar : 0 ≤ stream.bufferedChar)
    (noSurrogate : NoSurrogate stream.bufferedChar)
    (reads : appendCluster locale table fuel category stream buffer = .ok (cluster, after)) :
    Paired cluster ∧ NoSurrogate after.bufferedChar := by
  induction fuel generalizing category stream buffer with
  | zero => exact absurd reads (by simp [appendCluster])
  | succ fuel inductionHypothesis =>
    unfold appendCluster at reads
    obtain ⟨⟨c, between⟩, read, reads⟩ := bind_eq_ok.mp reads
    have longer := addUCS4ToUTF16Buffer_paired paired isChar noSurrogate
    have noSurrogate' := getucFiltered_noSurrogate read
    dsimp only at reads
    split at reads
    · cases reads
      exact ⟨longer, noSurrogate'⟩
    · next isChar' =>
      split at reads
      · exact inductionHypothesis longer (Int.not_lt.mp isChar') noSurrogate' reads
      · cases reads
        exact ⟨longer, noSurrogate'⟩

theorem getClusterInternal_paired {table : List (List Nat)} {cluster : Option (List UInt16)}
    (noSurrogate : NoSurrogate stream.bufferedChar)
    (reads : getClusterInternal locale table stream = .ok (cluster, after)) :
    (∀ original, cluster = some original → Paired original) ∧ NoSurrogate after.bufferedChar := by
  unfold getClusterInternal at reads
  obtain ⟨⟨c, category, between⟩, first, reads⟩ := bind_eq_ok.mp reads
  have buffered : between.bufferedChar = c :=
    ((bytes_lawful.bufferChar trivial locale).of_ok first).2.2.1
  have noSurrogate' : NoSurrogate c := by
    unfold bufferChar at first
    split at first
    · obtain ⟨⟨c', stream'⟩, read, first⟩ := bind_eq_ok.mp first
      cases first
      exact getucFiltered_noSurrogate read
    · cases first
      exact noSurrogate
  dsimp only at reads
  split at reads
  · cases reads
    exact ⟨fun original isSome => by contradiction, buffered ▸ noSurrogate'⟩
  · next isChar =>
    obtain ⟨⟨buffer, last⟩, appended, reads⟩ := bind_eq_ok.mp reads
    cases reads
    have result := appendCluster_paired ⟨[], rfl⟩ (by omega) (buffered ▸ noSurrogate') appended
    exact ⟨fun original isSome => Option.some.inj isSome ▸ result.1, result.2⟩

/-- The normalizer turns UTF-16 strings into UTF-16 strings. -/
def Locale.Normalizes (locale : Locale) : Prop :=
  ∀ units, Paired units → Paired (locale.normalize units)

/-- A list of clusters as the options collect it: each option adds its characters, with the
normalizer that is in force when it is read. -/
inductive Collected : List (List UInt16) → Prop
  | nil : Collected []
  | add {list list' : List (List UInt16)} (collected : Collected list) (locale : Locale)
    (normalizes : locale.Normalizes) (chars : List UInt8)
    (adds : addCharactersUTF8 locale chars list = .ok list') : Collected list'

theorem addCluster_paired {converted : List UInt16} (paired : ∀ cluster ∈ list, Paired cluster)
    (isPaired : Paired converted) : ∀ cluster ∈ addCluster list converted, Paired cluster := by
  unfold addCluster
  split
  · exact paired
  · intro cluster isMember
    rcases List.mem_append.mp isMember with isOld | isNew
    · exact paired cluster isOld
    · rwa [List.mem_singleton.mp isNew]

theorem addCharactersLoop_paired (normalizes : locale.Normalizes) {fuel : Nat}
    {list' : List (List UInt16)} (noSurrogate : NoSurrogate stream.bufferedChar)
    (paired : ∀ cluster ∈ list, Paired cluster)
    (adds : addCharactersLoop locale fuel stream list = .ok list') :
    ∀ cluster ∈ list', Paired cluster := by
  induction fuel generalizing stream list with
  | zero => exact absurd adds (by simp [addCharactersLoop])
  | succ fuel inductionHypothesis =>
    unfold addCharactersLoop at adds
    obtain ⟨⟨cluster, between⟩, reads, adds⟩ := bind_eq_ok.mp adds
    obtain ⟨isPaired, noSurrogate'⟩ := getClusterInternal_paired noSurrogate reads
    cases cluster with
    | none =>
      cases adds
      exact paired
    | some original =>
      have converted := normalizes original (isPaired original rfl)
      exact inductionHypothesis noSurrogate' (addCluster_paired paired converted) adds

theorem Collected.paired (collected : Collected list) : ∀ cluster ∈ list, Paired cluster := by
  induction collected with
  | nil => exact fun cluster isMember => absurd isMember List.not_mem_nil
  | add collected locale normalizes chars adds inductionHypothesis =>
    have empty : NoSurrogate (newStringStream chars).bufferedChar := by
      show NoSurrogate (-1)
      unfold NoSurrogate IsHigh IsLow
      decide
    exact addCharactersLoop_paired normalizes empty inductionHypothesis adds

/-! ### The check is exact -/

/-- A blank has a category, whatever the sets are. -/
theorem classifyChar_blank (options : Options) (locale : Locale) :
    ∃ category, classifyChar (dispatchUTF8 options locale) ⟨0, [], [0x20], []⟩ = .ok category := by
  have tested (condition : Nat → Bool) :
      ∃ answer, utf16CharCondition condition [0x20] = .ok answer :=
    ⟨_, utf16CharCondition_eq condition [0x20] [0x20] rfl⟩
  obtain ⟨delimiter, isDelimiter⟩ :
      ∃ answer, isDelimiterUTF8 options locale ⟨0, [], [0x20], []⟩ = .ok answer := by
    unfold isDelimiterUTF8
    split
    · exact ⟨_, rfl⟩
    · split
      · exact tested _
      · exact ⟨_, rfl⟩
  obtain ⟨whitespace, isWhitespace⟩ :
      ∃ answer, isWhitespaceUTF8 options locale ⟨0, [], [0x20], []⟩ = .ok answer := by
    unfold isWhitespaceUTF8
    split
    · exact ⟨_, rfl⟩
    · exact tested _
  rw [classifyChar, show (dispatchUTF8 options locale).isDelimiter _ = _ from isDelimiter,
    show (dispatchUTF8 options locale).isWhitespace _ = _ from isWhitespace]
  cases delimiter
  · cases whitespace
    · exact ⟨_, rfl⟩
    · exact ⟨_, rfl⟩
  · exact ⟨_, rfl⟩

/-- Sorting and the test of a blank leave the sets as they are. -/
theorem postProcessOptionsUTF8_eq (options : Options) (locale : Locale) :
    ∃ processed, postProcessOptionsUTF8 options locale = .ok processed ∧
      processed.delimiterList = qsort options.delimiterList ∧
      processed.whitespaceList = qsort options.whitespaceList ∧
      processed.punctuationMask = options.punctuationMask ∧
      processed.whitespaceSet = options.whitespaceSet := by
  unfold postProcessOptionsUTF8
  dsimp only
  obtain ⟨category, isCategory⟩ := classifyChar_blank { options with
    delimiterList := qsort options.delimiterList
    whitespaceList := qsort options.whitespaceList } locale
  rw [isCategory, ok_bind]
  refine ⟨_, rfl, ?_⟩
  split <;> exact ⟨rfl, rfl, rfl, rfl⟩

theorem overlaps_congr {options processed : Options} {locale : Locale}
    (delimiters : processed.delimiterList = qsort options.delimiterList)
    (whitespaces : processed.whitespaceList = qsort options.whitespaceList)
    (mask : processed.punctuationMask = options.punctuationMask) :
    Overlaps processed locale ↔ Overlaps options locale := by
  unfold Overlaps OnlyPunctuation
  rw [delimiters, whitespaces, mask]
  simp only [mem_qsort]

/-- The comparison is a total order, and the check that follows the sorting is exact: it reports
an overlap if a cluster is in both lists or a whitespace cluster is all punctuation, and lets
everything else pass. Then no cluster that is found in the whitespace list is a delimiter. -/
theorem checkOverlapUTF8_exact {options : Options} (locale : Locale)
    (set : options.whitespaceSet = true) (collected : Collected options.whitespaceList) :
    IsTotalOrder compareUTF16Buffer ∧
    ∃ processed, postProcessOptionsUTF8 options locale = .ok processed ∧
      (checkOverlapUTF8 processed locale = .error setsOverlap ↔ Overlaps options locale) ∧
      (checkOverlapUTF8 processed locale = .ok () ↔ ¬ Overlaps options locale) ∧
      (checkOverlapUTF8 processed locale = .ok () →
        ∀ charData, isWhitespaceUTF8 processed locale charData = .ok true →
          isDelimiterUTF8 processed locale charData = .ok false) := by
  obtain ⟨processed, processes, delimiters, whitespaces, mask, set'⟩ :=
    postProcessOptionsUTF8_eq options locale
  have paired : ∀ cluster ∈ processed.whitespaceList, Paired cluster := fun cluster isMember =>
    collected.paired cluster (mem_qsort.mp (whitespaces ▸ isMember))
  have checks := @checkOverlapUTF8_eq processed locale (set'.trans set)
    (delimiters ▸ sorted_qsort _) (whitespaces ▸ sorted_qsort _) paired
  have same := @overlaps_congr options processed locale delimiters whitespaces mask
  refine ⟨compareUTF16Buffer_isTotalOrder, processed, processes, ?_, ?_, fun silent charData => ?_⟩
  · rw [← same]
    rcases checks with ⟨reports, overlaps⟩ | ⟨silent, apart⟩
    · exact iff_of_true reports overlaps
    · exact iff_of_false (by rw [silent]; exact fun impossible => by contradiction) apart
  · rw [← same]
    rcases checks with ⟨reports, overlaps⟩ | ⟨silent, apart⟩
    · exact iff_of_false (by rw [reports]; exact fun impossible => by contradiction)
        (not_not_intro overlaps)
    · exact iff_of_true silent apart
  · have apart : ¬ Overlaps processed locale := by
      rcases checks with ⟨reports, -⟩ | ⟨-, apart⟩
      · rw [silent] at reports
        contradiction
      · exact apart
    rw [isWhitespaceUTF8, if_pos (set'.trans set)]
    intro isWhitespace
    have isMember := List.contains_iff_mem.mp (Except.ok.inj isWhitespace)
    have notDelimiter : ¬ processed.delimiterList.contains charData.converted = true :=
      fun isDelimiter => apart (Or.inl ⟨_, List.contains_iff_mem.mp isDelimiter, isMember⟩)
    rw [isDelimiterUTF8, if_neg notDelimiter]
    split
    · next enabled =>
      obtain ⟨answer, reads, only⟩ := isUTF16Punct_eq processed locale (paired _ isMember)
      have plain : answer = false := by
        rw [← Bool.not_eq_true, only]
        exact fun isOnly => apart (Or.inr ⟨enabled, _, isMember, isOnly⟩)
      rw [← plain]
      exact reads
    · rfl

/-- The options `-d .,` and `-W " \t"`. Neither list is sorted. -/
def commaBlankOptions : Options :=
  { defaultOptions with
    delimiterList := [[0x2E], [0x2C]]
    whitespaceList := [[0x20], [0x09]]
    whitespaceSet := true
    utf8Mode := true }

theorem checkOverlapUTF8_exact_comma :
    ∃ processed, postProcessOptionsUTF8 commaBlankOptions cLocale = .ok processed ∧
      checkOverlapUTF8 processed cLocale = .ok () := by
  have collected : Collected commaBlankOptions.whitespaceList :=
    .add .nil cLocale (fun _ paired => paired) [0x20, 0x09] (by decide)
  obtain ⟨-, processed, processes, -, silent, -⟩ :=
    checkOverlapUTF8_exact cLocale (by decide) collected
  have apart : ∀ cluster ∈ commaBlankOptions.delimiterList,
      cluster ∉ commaBlankOptions.whitespaceList := by decide
  refine ⟨processed, processes, silent.mpr ?_⟩
  rintro (⟨cluster, isDelimiter, isWhitespace⟩ | ⟨enabled, -⟩)
  · exact apart cluster isDelimiter isWhitespace
  · exact enabled rfl

end Dwdiff
