/-
This file compares the two kinds of streams of `stream.c`. A string stream is
read in step with a file stream over the same bytes until a byte is pushed back.
The file stream stores the byte. The string stream steps back and asserts that
the byte found there is the one pushed back, comparing a plain `char`, which is
signed, with the unsigned value that was read: the assertion fails for a byte
from 0x80 on. Bytes are pushed back when a sequence is broken off before its
last continuation byte.

Since no byte that can start a character is swallowed, the text alone decides
whether this happens when it is read to the end.
-/

import Dwdiff.Decoding

namespace Dwdiff

variable {file string : Stream}

/-! ### Sequences that are broken off -/

/-- How many continuation bytes `getuc` reads behind a lead byte. -/
def tailLength (lead : UInt8) : Nat :=
  if lead.toNat ≤ 193 then 0
  else if lead.toNat ≤ 223 then 1
  else if lead.toNat ≤ 239 then 2
  else if lead.toNat ≤ 244 then 3
  else 0

/-- The byte in the place of one of the next `bytesLeft` continuation bytes. -/
def brokenBy : Nat → List UInt8 → Option UInt8
  | 0, _ => none
  | _ + 1, [] => none
  | bytesLeft + 1, byte :: rest =>
    if Continuation byte then brokenBy bytesLeft rest else some byte

/-- The sequence at the start of the text is broken off by a byte that a plain `char` holds as a
negative number. -/
def breaks : List UInt8 → Bool
  | [] => false
  | lead :: rest => (brokenBy (tailLength lead) rest).any fun byte => 0x80 ≤ byte.toNat

/-- No sequence of the text is broken off by such a byte. -/
def Unbroken : List UInt8 → Prop
  | [] => True
  | lead :: rest => breaks (lead :: rest) = false ∧ Unbroken rest

theorem breaks_of_tailLength {lead : UInt8} (short : tailLength lead = 0) (rest : List UInt8) :
    breaks (lead :: rest) = false := by
  rw [breaks, short]
  rfl

/-- Continuation bytes start no sequence. -/
theorem unbroken_append {tail : List UInt8} (tails : ∀ byte ∈ tail, Continuation byte)
    (rest : List UInt8) : Unbroken (tail ++ rest) ↔ Unbroken rest := by
  induction tail with
  | nil => exact Iff.rfl
  | cons byte tail inductionHypothesis =>
    obtain ⟨isTail, tails⟩ := List.forall_mem_cons.mp tails
    have short : tailLength byte = 0 := if_pos (by have := isTail.2; omega)
    rw [← inductionHypothesis tails]
    exact and_iff_right (breaks_of_tailLength short _)

/-! ### Two streams in step -/

/-- A file stream, and a string stream at the same place of the same text. -/
structure StringTwin (file string : Stream) : Prop where
  kind : file.kind = .file
  same : string = { file with source.kind := .string, source.eof := string.eof }

namespace StringTwin

variable (twin : StringTwin file string)

include twin

theorem remaining : string.remaining = file.remaining := by
  rw [twin.same]

theorem nextChar : string.nextChar = file.nextChar := by
  rw [twin.same]

theorem bufferedChar : string.bufferedChar = file.bufferedChar := by
  rw [twin.same]

theorem lastClusterCategory : string.lastClusterCategory = file.lastClusterCategory := by
  rw [twin.same]

theorem advance (read rest : List UInt8) :
    StringTwin (file.advance read rest) (string.advance read rest) :=
  ⟨twin.kind, by rw [twin.same]; rfl⟩

theorem ends (atEnd : file.remaining = []) :
    StreamVtable.getChar file = .ok (none, { file with source.eof := .hit }) ∧
      StreamVtable.getChar string = .ok (none, string) ∧
      StringTwin { file with source.eof := .hit } string := by
  refine ⟨by rw [vtable_getChar, getChar_end file twin.kind atEnd], ?_, twin.kind, twin.same⟩
  rw [vtable_getChar, Stream.getChar, twin.remaining, atEnd, twin.same]

/-- The string stream takes a byte back if a plain `char` can hold it. -/
theorem ungetChar (byte : UInt8) (rest : List UInt8) (small : byte.toNat < 0x80) :
    StreamVtable.ungetChar (string.advance [byte] rest) byte =
      .ok (string.advance [] (byte :: rest)) := by
  have asserted : (signedChar byte == (byte.toNat : Int)) = true := by
    rw [signedChar, if_pos small]
    exact beq_self_eq_true _
  rw [twin.same]
  simp only [StreamVtable.ungetChar, Stream.ungetChar, Stream.advance, List.reverse_singleton,
    List.singleton_append, asserted, assert_true]
  rfl

theorem ungetChar_fails (byte : UInt8) (rest : List UInt8) (large : 0x80 ≤ byte.toNat) :
    ∃ failure, StreamVtable.ungetChar (string.advance [byte] rest) byte = .error failure := by
  have failed : (signedChar byte == (byte.toNat : Int)) = false := by
    rw [signedChar, if_neg (by omega)]
    exact beq_eq_false_iff_ne.mpr (by omega)
  rw [twin.same]
  simp only [StreamVtable.ungetChar, Stream.ungetChar, Stream.advance, List.reverse_singleton,
    List.singleton_append, failed, assert]
  exact ⟨_, rfl⟩

end StringTwin

/-- What a reader of both streams does: it returns the same from both, and the rest of the text
is unbroken if all of it is; or the string stream fails, and the text is broken. -/
def Follows {Value : Type} (bytes : List UInt8)
    (file string : Except Failure (Value × Stream)) : Prop :=
  (∃ value after after', file = .ok (value, after) ∧ string = .ok (value, after') ∧
    StringTwin after after' ∧ (Unbroken bytes ↔ Unbroken after.remaining)) ∨
  ((∃ failure, string = .error failure) ∧ ¬ Unbroken bytes)

theorem Follows.ok {Value : Type} (value : Value) {file string : Stream}
    (twin : StringTwin file string) :
    Follows file.remaining (.ok (value, file)) (.ok (value, string)) :=
  Or.inl ⟨value, file, string, rfl, rfl, twin, Iff.rfl⟩

theorem Follows.bind {Value Result : Type} {bytes : List UInt8}
    {file string : Except Failure (Value × Stream)}
    {next next' : Value × Stream → Except Failure (Result × Stream)}
    (follows : Follows bytes file string)
    (continues : ∀ value after after', file = .ok (value, after) → StringTwin after after' →
      Follows after.remaining (next (value, after)) (next' (value, after'))) :
    Follows bytes (file >>= next) (string >>= next') := by
  rcases follows with ⟨value, after, after', isFile, isString, twin, same⟩ | ⟨failed, broken⟩
  · rw [isString, isFile, ok_bind, ok_bind]
    rcases continues value after after' isFile twin with
      ⟨result, last, last', isFile', isString', twin', same'⟩ | ⟨failed, broken⟩
    · exact Or.inl ⟨result, last, last', isFile', isString', twin', same.trans same'⟩
    · exact Or.inr ⟨failed, fun unbroken => broken (same.mp unbroken)⟩
  · obtain ⟨failure, isString⟩ := failed
    rw [isString]
    exact Or.inr ⟨⟨failure, rfl⟩, broken⟩

/-! ### The readers -/

section Readers

variable (twin : StringTwin file string)

include twin

theorem getucContinue_follows (least bytesLeft retval : Nat) :
    (∃ value after after' tail,
      getucContinue least bytesLeft retval file = .ok (value, after) ∧
      getucContinue least bytesLeft retval string = .ok (value, after') ∧ StringTwin after after' ∧
      file.remaining = tail ++ after.remaining ∧ (∀ byte ∈ tail, Continuation byte) ∧
      (brokenBy bytesLeft file.remaining).any (fun byte => 0x80 ≤ byte.toNat) = false) ∨
    ((∃ failure, getucContinue least bytesLeft retval string = .error failure) ∧
      (brokenBy bytesLeft file.remaining).any (fun byte => 0x80 ≤ byte.toNat) = true) := by
  have none : ∀ byte ∈ ([] : List UInt8), Continuation byte := fun _ absent => by contradiction
  induction bytesLeft generalizing retval file string with
  | zero =>
    refine Or.inl ?_
    unfold getucContinue
    split
    · exact ⟨_, file, string, [], rfl, rfl, twin, rfl, none, rfl⟩
    · split <;> exact ⟨_, file, string, [], rfl, rfl, twin, rfl, none, rfl⟩
  | succ bytesLeft inductionHypothesis =>
    unfold getucContinue
    cases starts : file.remaining with
    | nil =>
      obtain ⟨atEnd, atEnd', twin'⟩ := twin.ends starts
      rw [atEnd, atEnd']
      exact Or.inl ⟨_, _, string, [], rfl, rfl, twin', starts.symm, none, rfl⟩
    | cons byte rest =>
      rw [vtable_getChar_cons file byte rest starts,
        vtable_getChar_cons string byte rest (twin.remaining.trans starts), ok_bind, ok_bind]
      dsimp only
      rw [brokenBy]
      by_cases isTail : Continuation byte
      · rw [if_neg (not_not.mpr ((continuation_iff byte).mpr isTail)), if_neg (not_not.mpr
          ((continuation_iff byte).mpr isTail)), if_pos isTail]
        rcases inductionHypothesis (twin.advance [byte] rest)
          (retval <<< 6 ||| byte.toNat &&& 0x3F) with
          ⟨value, after, after', tail, reads, reads', twin', split, tails, unbroken⟩ | failed
        · refine Or.inl ⟨value, after, after', byte :: tail, reads, reads', twin', ?_,
            List.forall_mem_cons.mpr ⟨isTail, tails⟩, unbroken⟩
          rw [List.cons_append]
          exact congrArg (byte :: ·) split
        · exact Or.inr failed
      · rw [if_pos fun masked => isTail ((continuation_iff byte).mp masked),
          if_pos fun masked => isTail ((continuation_iff byte).mp masked), if_neg isTail,
          Option.any_some]
        have pushed : StreamVtable.ungetChar (file.advance [byte] rest) byte =
            .ok (file.advance [] (byte :: rest)) := ungetChar_advance file [] byte rest twin.kind
        by_cases small : byte.toNat < 0x80
        · rw [pushed, twin.ungetChar byte rest small, ok_bind, ok_bind]
          exact Or.inl ⟨_, _, _, [], rfl, rfl, twin.advance [] (byte :: rest), rfl, none,
            decide_eq_false (by omega)⟩
        · obtain ⟨failure, fails⟩ := twin.ungetChar_fails byte rest (by omega)
          rw [fails]
          exact Or.inr ⟨⟨failure, rfl⟩, decide_eq_true (by omega)⟩

theorem getuc_follows : Follows file.remaining (getuc file) (getuc string) := by
  unfold getuc
  cases starts : file.remaining with
  | nil =>
    obtain ⟨atEnd, atEnd', twin'⟩ := twin.ends starts
    rw [atEnd, atEnd']
    exact Or.inl ⟨_, _, string, rfl, rfl, twin', by rw [← starts]⟩
  | cons lead rest =>
    rw [vtable_getChar_cons file lead rest starts,
      vtable_getChar_cons string lead rest (twin.remaining.trans starts), ok_bind, ok_bind]
    dsimp only
    have twin' := twin.advance [lead] rest
    have single : ∀ value : Int, tailLength lead = 0 → Follows (lead :: rest)
        (.ok (value, file.advance [lead] rest)) (.ok (value, string.advance [lead] rest)) :=
      fun value short => Or.inl ⟨value, _, _, rfl, rfl, twin',
        and_iff_right (breaks_of_tailLength short rest)⟩
    have several : ∀ least bytesLeft retval, tailLength lead = bytesLeft → Follows (lead :: rest)
        (getucContinue least bytesLeft retval (file.advance [lead] rest))
        (getucContinue least bytesLeft retval (string.advance [lead] rest)) := by
      rintro least bytesLeft retval rfl
      rcases getucContinue_follows twin' least (tailLength lead) retval with
        ⟨value, after, after', tail, reads, reads', twin'', split, tails, unbroken⟩ |
        ⟨failed, broken⟩
      · refine Or.inl ⟨value, after, after', reads, reads', twin'', ?_⟩
        rw [← unbroken_append tails after.remaining, ← split]
        exact and_iff_right unbroken
      · refine Or.inr ⟨failed, fun unbroken => ?_⟩
        exact absurd (broken.symm.trans unbroken.1) (by decide)
    have small := lead.toNat_lt
    have lengths : tailLength lead = if lead.toNat ≤ 193 then 0 else if lead.toNat ≤ 223 then 1
      else if lead.toNat ≤ 239 then 2 else if lead.toNat ≤ 244 then 3 else 0 := rfl
    split_ifs
    all_goals first
      | exact single _ (by rw [lengths]; split_ifs; all_goals omega)
      | exact several _ _ _ (by rw [lengths]; split_ifs; all_goals omega)

theorem filterUc_follows (c : Int) :
    Follows file.remaining (filterUc c file) (filterUc c string) := by
  unfold filterUc
  split
  · exact .ok _ twin
  · split
    · split
      · exact .ok _ twin
      · refine (getuc_follows twin).bind fun clow after after' _ twin' => ?_
        dsimp only
        split
        · refine @Follows.ok _ _ { after with nextChar := clow } _ ⟨twin'.kind, ?_⟩
          rw [twin'.same]
        · exact .ok _ twin'
    · exact .ok _ twin

theorem getucFiltered_follows :
    Follows file.remaining (getucFiltered file) (getucFiltered string) := by
  rw [getucFiltered, getucFiltered, twin.nextChar]
  split
  · refine @filterUc_follows { file with nextChar := -1 } _ ⟨twin.kind, ?_⟩ _
    rw [twin.same]
  · exact (getuc_follows twin).bind fun c _ _ _ twin' => filterUc_follows twin' c

end Readers

/-! ### Clusters -/

section Clusters

variable (locale : Locale) (table : List (List Nat))

theorem StringTwin.clearEof (twin : StringTwin file string) (c : Int) (category : Nat) :
    StringTwin { StreamVtable.clearEof file with
        bufferedChar := c, lastClusterCategory := category }
      { StreamVtable.clearEof string with
        bufferedChar := c, lastClusterCategory := category } := by
  have cleared : StreamVtable.clearEof file = { file with source.eof := .coming } := by
    rw [show StreamVtable.clearEof file = file.clearEof from rfl, Stream.clearEof, twin.kind]
  have kept : StreamVtable.clearEof string = string := by
    rw [show StreamVtable.clearEof string = string.clearEof from rfl, Stream.clearEof, twin.same]
  rw [cleared, kept]
  exact ⟨twin.kind, by rw [twin.same]⟩

theorem appendCluster_follows {fuel category : Nat} {buffer : List UInt16}
    (twin : StringTwin file string) (enough : file.load < fuel) :
    Follows file.remaining (appendCluster locale table fuel category file buffer)
      (appendCluster locale table fuel category string buffer) := by
  induction fuel generalizing file string category buffer with
  | zero => exact absurd enough (Nat.not_lt_zero _)
  | succ fuel inductionHypothesis =>
    unfold appendCluster
    rw [twin.bufferedChar]
    refine (getucFiltered_follows twin).bind fun c after after' reads twin' => ?_
    have less := getucFiltered_takes reads
    dsimp only
    split
    · refine Or.inl ⟨_, _, _, rfl, rfl, twin'.clearEof c 0, ?_⟩
      show Unbroken after.remaining ↔ Unbroken after.clearEof.remaining
      rw [Stream.clearEof, twin'.kind]
    · next isChar =>
      rw [if_pos (by omega)] at less
      have buffered : StringTwin
          { after with bufferedChar := c, lastClusterCategory := getClusterCategory locale c }
          { after' with bufferedChar := c, lastClusterCategory := getClusterCategory locale c } :=
        ⟨twin'.kind, by rw [twin'.same]⟩
      split
      · refine inductionHypothesis buffered ?_
        show after.load < fuel
        omega
      · exact .ok _ buffered

theorem getClusterInternal_follows (twin : StringTwin file string) :
    Follows file.remaining (getClusterInternal locale table file)
      (getClusterInternal locale table string) := by
  have appends : ∀ {first second : Stream} (c : Int) (category : Nat), StringTwin first second →
      Follows first.remaining
        (if c < 0 then .ok (none, first) else
          appendCluster locale table (StreamVtable.supply first.source + 2) category first [] >>=
            fun result => .ok (some result.1, result.2))
        (if c < 0 then .ok (none, second) else
          appendCluster locale table (StreamVtable.supply second.source + 2) category second [] >>=
            fun result => .ok (some result.1, result.2)) := by
    intro first second c category twin
    split
    · exact .ok none twin
    · rw [show StreamVtable.supply second.source = StreamVtable.supply first.source from
        congrArg List.length twin.remaining]
      exact (appendCluster_follows locale table twin (load_lt first)).bind fun buffer _ _ _ twin' =>
        .ok (some buffer) twin'
  unfold getClusterInternal bufferChar
  rw [twin.bufferedChar, twin.lastClusterCategory]
  split
  · rw [bind_assoc, bind_assoc]
    refine (getucFiltered_follows twin).bind fun c after after' _ twin' => ?_
    exact @appends { after with bufferedChar := c } { after' with bufferedChar := c } c _
      ⟨twin'.kind, by rw [twin'.same]⟩
  · exact appends _ _ twin

end Clusters

/-- The clusters of a stream, read to the end. -/
def readClusters (read : Stream → Except Failure (Option (List UInt16) × Stream)) :
    Nat → Stream → Except Failure (List (List UInt16))
  | 0, _ => .error .diverges
  | fuel + 1, stream => do
    let (cluster, stream) ← read stream
    match cluster with
    | none => .ok []
    | some cluster => do
      let clusters ← readClusters read fuel stream
      .ok (cluster :: clusters)

/-- Both streams are read to the end with the same clusters, or the text is broken. -/
theorem readClusters_follows (locale : Locale) (table : List (List Nat)) {fuel : Nat}
    (twin : StringTwin file string) (enough : file.weight < fuel) :
    (∃ clusters, readClusters (getClusterInternal locale table) fuel file = .ok clusters ∧
      readClusters (getClusterInternal locale table) fuel string = .ok clusters ∧
      Unbroken file.remaining) ∨
    ((∃ failure, readClusters (getClusterInternal locale table) fuel string = .error failure) ∧
      ¬ Unbroken file.remaining) := by
  induction fuel generalizing file string with
  | zero => exact absurd enough (Nat.not_lt_zero _)
  | succ fuel inductionHypothesis =>
    unfold readClusters
    rcases getClusterInternal_follows locale table twin with
      ⟨cluster, after, after', reads, reads', twin', same⟩ | ⟨⟨failure, fails⟩, broken⟩
    · rw [reads, reads', ok_bind, ok_bind, same]
      obtain ⟨-, less, atEnd⟩ := (bytes_lawful.getClusterInternal trivial locale table).of_ok reads
      dsimp only at less
      cases cluster with
      | none =>
        refine Or.inl ⟨[], rfl, rfl, ?_⟩
        rw [show after.remaining = [] from atEnd rfl]
        exact trivial
      | some cluster =>
        rw [Option.isSome_some, if_pos rfl] at less
        rcases inductionHypothesis twin' (by omega) with
          ⟨clusters, rest, rest', unbroken⟩ | ⟨⟨failure, fails⟩, broken⟩
        · refine Or.inl ⟨cluster :: clusters, ?_, ?_, unbroken⟩
          · dsimp only
            rw [rest]
            rfl
          · dsimp only
            rw [rest']
            rfl
        · refine Or.inr ⟨⟨failure, ?_⟩, broken⟩
          dsimp only
          rw [fails]
          rfl
    · rw [fails]
      exact Or.inr ⟨⟨failure, rfl⟩, broken⟩

/-- A string stream is read to the end without a failure, and yields the clusters that a file
stream with the same bytes yields. -/
def ReadsLikeFile (read : Stream → Except Failure (Option (List UInt16) × Stream))
    (bytes : List UInt8) : Prop :=
  ∃ clusters, readClusters read (bytes.length + 1) (newStringStream bytes) = .ok clusters ∧
    readClusters read (bytes.length + 1) (newFileStream bytes) = .ok clusters

theorem getClusterInternal_readsLikeFile (locale : Locale) (table : List (List Nat))
    (bytes : List UInt8) :
    ReadsLikeFile (getClusterInternal locale table) bytes ↔ Unbroken bytes := by
  have twin : StringTwin (newFileStream bytes) (newStringStream bytes) := ⟨rfl, rfl⟩
  have weight : (newFileStream bytes).weight = bytes.length := rfl
  rcases readClusters_follows locale table twin (Nat.lt_succ_of_le weight.le) with
    ⟨clusters, isFile, isString, unbroken⟩ | ⟨⟨failure, fails⟩, broken⟩
  · exact iff_of_true ⟨clusters, isString, isFile⟩ unbroken
  · refine iff_of_false (fun ⟨clusters, isString, _⟩ => ?_) broken
    have := fails.symm.trans isString
    contradiction

/-- String streams survive a text, and read it as file streams do, exactly when no sequence of
the text is broken off by a byte from 0x80 on. -/
theorem stringStream_survives_iff (locale : Locale) (bytes : List UInt8) :
    (ReadsLikeFile (getCluster locale) bytes ↔ Unbroken bytes) ∧
    (ReadsLikeFile (getBackspaceCluster locale) bytes ↔ Unbroken bytes) :=
  ⟨getClusterInternal_readsLikeFile locale _ bytes, getClusterInternal_readsLikeFile locale _ bytes⟩

/-- Two lead bytes in a row: the file stream yields two replacement characters, the string
stream fails its assertion. -/
theorem stringStream_aborts :
    readClusters (getCluster cLocale) 3 (newFileStream [0xC3, 0xC3]) = .ok [[0xFFFD], [0xFFFD]] ∧
    readClusters (getCluster cLocale) 3 (newStringStream [0xC3, 0xC3]) =
      .error (.assertion "stream->data.string.string[--stream->data.string.index] == c") := by
  decide

end Dwdiff
