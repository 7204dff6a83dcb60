/-
This file describes what the reader of `unicode.c` does with every text, valid
UTF-8 or not. A reader reaches the bytes through a vtable only, so two streams that
deliver the same bytes are read in step.

One call of `getuc` on a file stream takes a shortest form and returns its code,
or takes a byte and some continuation bytes behind it and returns an error code.
A text is therefore a sequence of items, one for each call up to the end. The
filter `getucFiltered` is compared with what it is meant to make of the items:
surrogate pairs joined, and one replacement character for every other surrogate
and every error. Its look-ahead waits in a field in which a negative value means
that nothing waits, so an error that follows a high surrogate is lost.
-/

import Dwdiff.Cluster
import Dwdiff.Library.Outcome
import Dwdiff.Transcoding

namespace Dwdiff

open Outcome

variable {item : Int} {stream : Stream} {items : List Int} {lead : UInt8}

/-! ### Streams in tandem -/

section Tandem

variable {Source Source' : Type} [StreamVtable Source] [StreamVtable Source']
  {related : Stream Source → Stream Source' → Prop} {stream : Stream Source}
  {stream' : Stream Source'}

/-- Two kinds of streams that are kept in step: both deliver the same byte, and both take it back
right after it was read, or refuse it. -/
structure Tandem (related : Stream Source → Stream Source' → Prop) : Prop where
  getChar : ∀ stream stream', related stream stream' →
    Agree (fun result result' => result.1 = result'.1 ∧ related result.2 result'.2 ∧
        ∀ char, result.1 = some char → Agree related (StreamVtable.ungetChar result.2 char)
          (StreamVtable.ungetChar result'.2 char))
      (StreamVtable.getChar stream) (StreamVtable.getChar stream')

theorem Tandem.getucContinue (tandem : Tandem related) (least bytesLeft retval : Nat)
    (isRelated : related stream stream') :
    Agree (fun result result' => result.1 = result'.1 ∧ related result.2 result'.2)
      (Dwdiff.getucContinue least bytesLeft retval stream)
      (Dwdiff.getucContinue least bytesLeft retval stream') := by
  induction bytesLeft generalizing retval stream stream' with
  | zero =>
    unfold Dwdiff.getucContinue
    split
    · exact ⟨rfl, isRelated⟩
    · split <;> exact ⟨rfl, isRelated⟩
  | succ bytesLeft inductionHypothesis =>
    unfold Dwdiff.getucContinue
    refine (tandem.getChar stream stream' isRelated).bind ?_
    rintro ⟨byte, next⟩ ⟨_, next'⟩ ⟨rfl, isRelated', puts⟩
    cases byte with
    | none => exact ⟨rfl, isRelated'⟩
    | some char =>
      dsimp only
      split
      · exact (puts char rfl).bind fun back back' isRelated'' => ⟨rfl, isRelated''⟩
      · exact inductionHypothesis _ isRelated'

/-- A reader returns the same value over both. -/
theorem Tandem.getuc (tandem : Tandem related) (isRelated : related stream stream') :
    Agree (fun result result' => result.1 = result'.1 ∧ related result.2 result'.2)
      (Dwdiff.getuc stream) (Dwdiff.getuc stream') := by
  unfold Dwdiff.getuc
  refine (tandem.getChar stream stream' isRelated).bind ?_
  rintro ⟨byte, next⟩ ⟨_, next'⟩ ⟨rfl, isRelated', -⟩
  cases byte with
  | none => exact ⟨rfl, isRelated'⟩
  | some char =>
    dsimp only
    split_ifs
    all_goals first
      | exact tandem.getucContinue _ _ _ isRelated'
      | exact ⟨rfl, isRelated'⟩

end Tandem

/-! ### One call of the reader -/

/-- A byte that cannot start a character. -/
def Continuation (byte : UInt8) : Prop := 0x80 ≤ byte.toNat ∧ byte.toNat ≤ 0xBF

instance (byte : UInt8) : Decidable (Continuation byte) := inferInstanceAs (Decidable (_ ∧ _))

theorem continuation_iff (byte : UInt8) : byte.toNat &&& 0xC0 = 0x80 ↔ Continuation byte := by
  have small := byte.toNat_lt
  rw [and_C0, Continuation]
  omega

theorem IsError.neg {value : Int} (isError : IsError value) : value < 0 ∧ value ≠ ueof := by
  rcases isError with rfl | rfl | rfl <;> decide

/-- The stream behind the bytes that a reader has taken from it. -/
structure Stream.Behind (stream : Stream) (read : List UInt8) (after : Stream) : Prop where
  kind : after.kind = stream.kind
  remaining : stream.remaining = read ++ after.remaining
  nextChar : after.nextChar = stream.nextChar

theorem behind_advance {read rest : List UInt8} (starts : stream.remaining = read ++ rest) :
    stream.Behind read (stream.advance read rest) :=
  ⟨rfl, starts, rfl⟩

theorem Stream.Behind.trans {between after : Stream} {first second : List UInt8}
    (one : stream.Behind first between) (two : between.Behind second after) :
    stream.Behind (first ++ second) after where
  kind := two.kind.trans one.kind
  remaining := by rw [one.remaining, two.remaining, List.append_assoc]
  nextChar := two.nextChar.trans one.nextChar

/-- The value of the continuation bytes behind a lead byte. -/
def tailValue (retval : Nat) (tail : List UInt8) : Nat :=
  tail.foldl (fun value byte => value * 64 + byte.toNat % 64) retval

/-- The loop of `getuc` takes continuation bytes only. It returns an error code, or the value
of as many of them as it was to take. -/
theorem getucContinue_reads (least bytesLeft retval : Nat) (stream : Stream)
    (file : stream.kind = .file) :
    ∃ value tail after, getucContinue least bytesLeft retval stream = .ok (value, after) ∧
      stream.Behind tail after ∧ (∀ byte ∈ tail, Continuation byte) ∧
      (IsError value ∨ tail.length = bytesLeft ∧ value = tailValue retval tail ∧
        least ≤ tailValue retval tail ∧ tailValue retval tail ≤ 0x10FFFF) := by
  induction bytesLeft generalizing retval stream with
  | zero =>
    rw [getucContinue]
    have nothing : stream.Behind [] stream := ⟨rfl, rfl, rfl⟩
    have none : ∀ byte ∈ ([] : List UInt8), Continuation byte := fun _ member => by contradiction
    split
    · exact ⟨ueoverlong, [], stream, rfl, nothing, none, Or.inl (Or.inl rfl)⟩
    · split
      · exact ⟨uetoolarge, [], stream, rfl, nothing, none, Or.inl (Or.inr (Or.inr rfl))⟩
      · exact ⟨retval, [], stream, rfl, nothing, none, Or.inr ⟨rfl, rfl, by
          show least ≤ retval; omega, by show retval ≤ _; omega⟩⟩
  | succ bytesLeft inductionHypothesis =>
    rw [getucContinue]
    cases starts : stream.remaining with
    | nil =>
      rw [vtable_getChar, getChar_end stream file starts]
      exact ⟨ueinvalid, [], _, rfl, ⟨rfl, rfl, rfl⟩, fun _ member => by contradiction,
        Or.inl (Or.inr (Or.inl rfl))⟩
    | cons byte rest =>
      rw [vtable_getChar_cons stream byte rest starts, ok_bind]
      dsimp only
      split
      · have pushed : StreamVtable.ungetChar (stream.advance [byte] rest) byte =
            .ok (stream.advance [] (byte :: rest)) := ungetChar_advance stream [] byte rest file
        rw [pushed, ok_bind]
        exact ⟨ueinvalid, [], _, rfl, behind_advance starts, fun _ member => by contradiction,
          Or.inl (Or.inr (Or.inl rfl))⟩
      · next isContinuation =>
        rw [not_not, continuation_iff] at isContinuation
        have folded : retval <<< 6 ||| byte.toNat &&& 0x3F = retval * 64 + byte.toNat % 64 := by
          rw [and_3F]
          exact BitMask.shiftLeft_or retval (byte.toNat % 64) 6 (Nat.mod_lt _ (by decide))
        rw [folded]
        obtain ⟨value, tail, after, read, behind, tails, result⟩ := inductionHypothesis
          (retval * 64 + byte.toNat % 64) (stream.advance [byte] rest) file
        refine ⟨value, byte :: tail, after, read, (behind_advance starts).trans behind,
          List.forall_mem_cons.mpr ⟨isContinuation, tails⟩, result.imp_right ?_⟩
        rintro ⟨rfl, isValue, enough, small⟩
        exact ⟨rfl, isValue, enough, small⟩

theorem ofNat_eq_iff {value : Nat} {byte : UInt8} (small : value < 256) :
    UInt8.ofNat value = byte ↔ value = byte.toNat := by
  rw [← UInt8.toNat_inj, toNat_ofNat_byte value small]

/-- The three lengths of a shortest form with continuation bytes. -/
theorem shortestForm_of_two {byte : UInt8} (low : 194 ≤ lead.toNat) (high : lead.toNat ≤ 223)
    (isTail : Continuation byte) :
    shortestForm (tailValue (lead.toNat % 32) [byte]) = [lead, byte] := by
  obtain ⟨above, below⟩ := isTail
  have value : tailValue (lead.toNat % 32) [byte] = lead.toNat % 32 * 64 + byte.toNat % 64 := rfl
  rw [value, shortestForm, if_neg (by omega), if_pos (by omega)]
  rw [(ofNat_eq_iff (by omega)).mpr (show _ = lead.toNat by omega),
    (ofNat_eq_iff (by omega)).mpr (show _ = byte.toNat by omega)]

theorem shortestForm_of_three {second third : UInt8} (low : 224 ≤ lead.toNat)
    (high : lead.toNat ≤ 239) (isSecond : Continuation second) (isThird : Continuation third)
    (enough : 0x800 ≤ tailValue (lead.toNat % 16) [second, third]) :
    shortestForm (tailValue (lead.toNat % 16) [second, third]) = [lead, second, third] := by
  obtain ⟨above, below⟩ := isSecond
  obtain ⟨above', below'⟩ := isThird
  have value : tailValue (lead.toNat % 16) [second, third] =
      (lead.toNat % 16 * 64 + second.toNat % 64) * 64 + third.toNat % 64 := rfl
  rw [value] at enough ⊢
  rw [shortestForm, if_neg (by omega), if_neg (by omega), if_pos (by omega)]
  rw [(ofNat_eq_iff (by omega)).mpr (show _ = lead.toNat by omega),
    (ofNat_eq_iff (by omega)).mpr (show _ = second.toNat by omega),
    (ofNat_eq_iff (by omega)).mpr (show _ = third.toNat by omega)]

theorem shortestForm_of_four {second third fourth : UInt8} (low : 240 ≤ lead.toNat)
    (high : lead.toNat ≤ 244) (isSecond : Continuation second) (isThird : Continuation third)
    (isFourth : Continuation fourth)
    (enough : 0x10000 ≤ tailValue (lead.toNat % 8) [second, third, fourth]) :
    shortestForm (tailValue (lead.toNat % 8) [second, third, fourth]) =
      [lead, second, third, fourth] := by
  obtain ⟨above, below⟩ := isSecond
  obtain ⟨above', below'⟩ := isThird
  obtain ⟨above'', below''⟩ := isFourth
  have value : tailValue (lead.toNat % 8) [second, third, fourth] =
      ((lead.toNat % 8 * 64 + second.toNat % 64) * 64 + third.toNat % 64) * 64 +
        fourth.toNat % 64 := rfl
  rw [value] at enough ⊢
  rw [shortestForm, if_neg (by omega), if_neg (by omega), if_neg (by omega)]
  rw [(ofNat_eq_iff (by omega)).mpr (show _ = lead.toNat by omega),
    (ofNat_eq_iff (by omega)).mpr (show _ = second.toNat by omega),
    (ofNat_eq_iff (by omega)).mpr (show _ = third.toNat by omega),
    (ofNat_eq_iff (by omega)).mpr (show _ = fourth.toNat by omega)]

/-- One call of `getuc` on a file stream that is not at its end: it takes at least a byte, the
other bytes it takes are continuation bytes, and it returns an error code or the code whose
shortest form it has taken. -/
theorem getuc_reads (stream : Stream) (file : stream.kind = .file) (lead : UInt8)
    (rest : List UInt8) (starts : stream.remaining = lead :: rest) :
    ∃ value tail after, getuc stream = .ok (value, after) ∧ stream.Behind (lead :: tail) after ∧
      (∀ byte ∈ tail, Continuation byte) ∧
      (IsError value ∨ ∃ code : Nat, value = code ∧ code ≤ 0x10FFFF ∧
        lead :: tail = shortestForm code) := by
  have small := lead.toNat_lt
  have first : stream.Behind [lead] (stream.advance [lead] rest) := behind_advance starts
  have none : ∀ byte ∈ ([] : List UInt8), Continuation byte := fun _ member => by contradiction
  rw [getuc, vtable_getChar_cons stream lead rest starts, ok_bind]
  dsimp only
  split
  · next one =>
    refine ⟨_, [], _, rfl, first, none, Or.inr ⟨lead.toNat, rfl, by omega, ?_⟩⟩
    rw [shortestForm, if_pos one, UInt8.ofNat_toNat]
  split
  · exact ⟨_, [], _, rfl, first, none, Or.inl (Or.inr (Or.inl rfl))⟩
  split
  · exact ⟨_, [], _, rfl, first, none, Or.inl (Or.inl rfl)⟩
  split
  · next high =>
    obtain ⟨value, tail, after, read, behind, tails, result⟩ := getucContinue_reads 0x80 1
      (lead.toNat &&& 0x1F) (stream.advance [lead] rest) file
    refine ⟨value, tail, after, read, first.trans behind, tails, result.imp_right ?_⟩
    rintro ⟨length, rfl, enough, most⟩
    obtain ⟨second, rfl⟩ := List.length_eq_one_iff.mp length
    refine ⟨_, rfl, most, ?_⟩
    rw [show lead.toNat &&& 0x1F = lead.toNat % 32 from BitMask.and_low _ 5,
      shortestForm_of_two (by omega) high (tails second (by simp))]
  split
  · next high =>
    obtain ⟨value, tail, after, read, behind, tails, result⟩ := getucContinue_reads 0x800 2
      (lead.toNat &&& 0x0F) (stream.advance [lead] rest) file
    refine ⟨value, tail, after, read, first.trans behind, tails, result.imp_right ?_⟩
    rintro ⟨length, rfl, enough, most⟩
    obtain ⟨second, third, rfl⟩ := List.length_eq_two.mp length
    refine ⟨_, rfl, most, ?_⟩
    rw [show lead.toNat &&& 0x0F = lead.toNat % 16 from BitMask.and_low _ 4] at enough ⊢
    rw [shortestForm_of_three (by omega) high (tails second (by simp)) (tails third (by simp))
      enough]
  split
  · next high =>
    obtain ⟨value, tail, after, read, behind, tails, result⟩ := getucContinue_reads 0x10000 3
      (lead.toNat &&& 0x07) (stream.advance [lead] rest) file
    refine ⟨value, tail, after, read, first.trans behind, tails, result.imp_right ?_⟩
    rintro ⟨length, rfl, enough, most⟩
    obtain ⟨second, third, fourth, rfl⟩ := List.length_eq_three.mp length
    refine ⟨_, rfl, most, ?_⟩
    rw [show lead.toNat &&& 0x07 = lead.toNat % 8 from BitMask.and_low _ 3] at enough ⊢
    rw [shortestForm_of_four (by omega) high (tails second (by simp)) (tails third (by simp))
      (tails fourth (by simp)) enough]
  · exact ⟨_, [], _, rfl, first, none, Or.inl (Or.inr (Or.inr rfl))⟩

/-! ### The items of a text -/

/-- The results of a reader up to the end of the stream. -/
def readToEnd (read : Stream → Except Failure (Int × Stream)) :
    Nat → Stream → Except Failure (List Int)
  | 0, _ => .error .diverges
  | fuel + 1, stream => do
    let (value, stream) ← read stream
    if value = ueof then .ok []
    else do
      let values ← readToEnd read fuel stream
      .ok (value :: values)

/-- A reader of a file stream sees only what is still to come. -/
theorem tandem_self : Tandem fun stream other : Stream =>
    stream.kind = .file ∧ other.kind = .file ∧ stream.remaining = other.remaining where
  getChar := by
    rintro stream other ⟨file, file', same⟩
    cases starts : stream.remaining with
    | nil =>
      rw [vtable_getChar, vtable_getChar, getChar_end stream file starts,
        getChar_end other file' (same ▸ starts)]
      exact ⟨rfl, ⟨file, file', same⟩, fun _ absent => by contradiction⟩
    | cons byte rest =>
      rw [vtable_getChar_cons stream byte rest starts,
        vtable_getChar_cons other byte rest (same ▸ starts)]
      refine ⟨rfl, ⟨file, file', rfl⟩, fun char isChar => ?_⟩
      obtain rfl := Option.some.inj isChar
      show Agree _ ((stream.advance [byte] rest).ungetChar byte)
        ((other.advance [byte] rest).ungetChar byte)
      rw [← List.nil_append [byte], ungetChar_advance stream [] byte rest file,
        ungetChar_advance other [] byte rest file']
      exact ⟨file, file', rfl⟩

/-- The items that `getuc` makes of a text, whatever the state of the stream is otherwise. -/
inductive Items : List UInt8 → List Int → Prop
  | nil : Items [] []
  | cons {bytes rest : List UInt8} {item : Int} {items : List Int}
    (reads : ∀ stream : Stream, stream.kind = .file → stream.remaining = bytes →
      ∃ after, getuc stream = .ok (item, after) ∧ after.kind = .file ∧ after.remaining = rest ∧
        after.nextChar = stream.nextChar)
    (isItem : IsError item ∨ 0 ≤ item) (shorter : rest.length < bytes.length)
    (more : Items rest items) : Items bytes (item :: items)

theorem exists_items (bytes : List UInt8) : ∃ items, Items bytes items := by
  induction length : bytes.length using Nat.strong_induction_on generalizing bytes with
  | _ length inductionHypothesis =>
    cases bytes with
    | nil => exact ⟨[], .nil⟩
    | cons lead rest =>
      obtain ⟨item, tail, after, answer, behind, -, result⟩ :=
        getuc_reads (newFileStream (lead :: rest)) rfl lead rest rfl
      have split : lead :: rest = lead :: tail ++ after.remaining := behind.remaining
      have shorter : after.remaining.length < (lead :: rest).length := by
        rw [split, List.length_append, List.length_cons]
        omega
      obtain ⟨items, isItems⟩ := inductionHypothesis _ (length ▸ shorter) after.remaining rfl
      refine ⟨item :: items, .cons (fun stream file same => ?_) ?_ shorter isItems⟩
      · obtain ⟨item', tail', after', answer', behind', -, -⟩ :=
          getuc_reads stream file lead rest same
        have agree := tandem_self.getuc
          ⟨(rfl : (newFileStream (lead :: rest)).kind = .file), file, same.symm⟩
        rw [answer, answer'] at agree
        obtain ⟨rfl, -, -, sameRest⟩ := agree
        exact ⟨after', answer', behind'.kind.trans file, sameRest.symm, behind'.nextChar⟩
      · rcases result with isError | ⟨code, rfl, -, -⟩
        · exact Or.inl isError
        · exact Or.inr (Int.natCast_nonneg _)

theorem Items.length_le {bytes : List UInt8} (isItems : Items bytes items) :
    items.length ≤ bytes.length := by
  induction isItems with
  | nil => exact Nat.le_refl _
  | cons _ _ shorter _ inductionHypothesis =>
    rw [List.length_cons]
    omega

theorem not_ueof (isItem : IsError item ∨ 0 ≤ item) : item ≠ ueof := by
  rcases isItem with isError | nonneg
  · exact isError.neg.2
  · unfold ueof
    omega

/-- The calls of `getuc` up to the end. -/
theorem Items.readToEnd {bytes : List UInt8} (isItems : Items bytes items) {fuel : Nat}
    (enough : items.length < fuel) (file : stream.kind = .file)
    (starts : stream.remaining = bytes) : readToEnd getuc fuel stream = .ok items := by
  induction isItems generalizing fuel stream with
  | nil =>
    obtain ⟨fuel, rfl⟩ := Nat.exists_eq_succ_of_ne_zero (Nat.ne_of_gt enough)
    rw [Dwdiff.readToEnd, getuc_end stream file starts]
    rfl
  | cons reads isItem _ _ inductionHypothesis =>
    rw [List.length_cons] at enough
    obtain ⟨fuel, rfl⟩ := Nat.exists_eq_succ_of_ne_zero (by omega : fuel ≠ 0)
    obtain ⟨after, answer, file', isRest, -⟩ := reads stream file starts
    rw [Dwdiff.readToEnd, answer, ok_bind]
    dsimp only
    rw [if_neg (not_ueof isItem), inductionHypothesis (by omega) file' isRest]
    rfl

/-! ### What the filter makes of the items -/

def IsHigh (item : Int) : Prop := 0xD800 ≤ item ∧ item ≤ 0xDBFF

def IsLow (item : Int) : Prop := 0xDC00 ≤ item ∧ item ≤ 0xDFFF

instance (item : Int) : Decidable (IsHigh item) := inferInstanceAs (Decidable (_ ∧ _))

instance (item : Int) : Decidable (IsLow item) := inferInstanceAs (Decidable (_ ∧ _))

/-- The code point that a pair of surrogates denotes. -/
def joinSurrogates (high low : Int) : Int := 0x10000 + (high - 0xD800) * 0x400 + (low - 0xDC00)

/-- An item on its own: a surrogate or an error becomes the replacement character. -/
def replaceItem (item : Int) : Int :=
  if item < 0 ∨ IsHigh item ∨ IsLow item then replacementCharacter else item

/-- What is meant to be made of the items: surrogate pairs are joined, and every other item is
replaced on its own. -/
def replaceItems : List Int → List Int
  | [] => []
  | [item] => [replaceItem item]
  | first :: second :: rest =>
    if IsHigh first ∧ IsLow second then joinSurrogates first second :: replaceItems rest
    else replaceItem first :: replaceItems (second :: rest)

/-- What `getucFiltered` makes of the items: an error behind a high surrogate is dropped. -/
def filterItems : List Int → List Int
  | [] => []
  | [item] => [replaceItem item]
  | first :: second :: rest =>
    if IsHigh first ∧ IsLow second then joinSurrogates first second :: filterItems rest
    else if IsHigh first ∧ second < 0 then replaceItem first :: filterItems rest
    else replaceItem first :: filterItems (second :: rest)

theorem replaceItems_cons (notHigh : ¬ IsHigh item) (rest : List Int) :
    replaceItems (item :: rest) = replaceItem item :: replaceItems rest := by
  cases rest with
  | nil => rfl
  | cons second rest => rw [replaceItems, if_neg fun isPair => notHigh isPair.1]

theorem filterItems_cons (notHigh : ¬ IsHigh item) (rest : List Int) :
    filterItems (item :: rest) = replaceItem item :: filterItems rest := by
  cases rest with
  | nil => rfl
  | cons second rest =>
    rw [filterItems, if_neg fun isPair => notHigh isPair.1,
      if_neg fun isDropped => notHigh isDropped.1]

theorem not_isHigh_of_neg (negative : item < 0) : ¬ IsHigh item :=
  fun isHigh => by have := isHigh.1; omega

theorem filterItems_length_le (items : List Int) :
    (filterItems items).length ≤ (replaceItems items).length := by
  fun_induction replaceItems items with
  | case1 | case2 item => exact Nat.le_refl _
  | case3 first second rest isPair inductionHypothesis =>
    rw [filterItems, if_pos isPair]
    exact Nat.succ_le_succ inductionHypothesis
  | case4 first second rest notPair inductionHypothesis =>
    rw [filterItems, if_neg notPair]
    split
    · next dropped =>
      have alone := not_isHigh_of_neg dropped.2
      rw [replaceItems_cons alone, filterItems_cons alone] at inductionHypothesis
      rw [replaceItems_cons alone]
      simp only [List.length_cons] at inductionHypothesis ⊢
      omega
    · exact Nat.succ_le_succ inductionHypothesis

/-- The two agree unless something is dropped. -/
theorem filterItems_eq_iff (items : List Int) : filterItems items = replaceItems items ↔
    items.IsChain fun first second => ¬ (IsHigh first ∧ second < 0) := by
  fun_induction replaceItems items with
  | case1 => exact iff_of_true rfl .nil
  | case2 item => exact iff_of_true rfl (.singleton item)
  | case3 first second rest isPair inductionHypothesis =>
    have notHigh : ¬ IsHigh second := fun isHigh => by
      have := isHigh.2
      have := isPair.2.1
      omega
    have kept : ¬ (IsHigh first ∧ second < 0) := fun dropped => by
      have := isPair.2.1
      omega
    rw [filterItems, if_pos isPair, List.cons_inj_right, inductionHypothesis,
      List.isChain_cons_cons, and_iff_right kept]
    refine Iff.symm ?_
    cases rest with
    | nil => exact iff_of_true (.singleton second) .nil
    | cons third rest =>
      rw [List.isChain_cons_cons, and_iff_right fun dropped => notHigh dropped.1]
  | case4 first second rest notPair inductionHypothesis =>
    rw [filterItems, if_neg notPair, List.isChain_cons_cons]
    split
    · next dropped =>
      refine iff_of_false (fun same => ?_) fun kept => kept.1 dropped
      rw [List.cons_inj_right, replaceItems_cons (not_isHigh_of_neg dropped.2)] at same
      have length := congrArg List.length same
      have := filterItems_length_le rest
      rw [List.length_cons] at length
      omega
    · next kept => rw [List.cons_inj_right, inductionHypothesis, and_iff_right kept]

/-! ### A run of the filter -/

theorem land_basic (nonneg : 0 ≤ item) (basic : item < 0x10000) (mask : Nat) :
    land item mask = item.toNat &&& mask := by
  obtain ⟨code, rfl⟩ := Int.eq_ofNat_of_zero_le nonneg
  exact land_of_nat code mask (by omega)

/-- Below 0x10000 the first mask of the filter catches exactly the surrogates. -/
theorem land_surrogate_iff (nonneg : 0 ≤ item) (basic : item < 0x10000) :
    land item 0xF800 = 0xD800 ↔ IsHigh item ∨ IsLow item := by
  rw [land_basic nonneg basic, and_F800, IsHigh, IsLow]
  omega

theorem land_low_iff (nonneg : 0 ≤ item) (basic : item < 0x10000)
    (surrogate : IsHigh item ∨ IsLow item) : land item 0xDC00 = 0xDC00 ↔ IsLow item := by
  rw [land_basic nonneg basic, and_DC00]
  unfold IsHigh at surrogate
  unfold IsLow at surrogate ⊢
  omega

/-- The test on the look-ahead, which may be an error. -/
theorem land_next_iff (isItem : IsError item ∨ 0 ≤ item) (basic : item < 0x10000) :
    land item 0xFC00 = 0xDC00 ↔ IsLow item := by
  rcases isItem with isError | nonneg
  · rcases isError with rfl | rfl | rfl <;> decide
  · rw [land_basic nonneg basic, and_FC00, IsLow]
    omega

/-- The items that the filter has still to deal with: the one that waits in front of those that
are still to be read. -/
inductive Pending (stream : Stream) : List Int → Prop
  | fresh {items : List Int} (file : stream.kind = .file) (empty : stream.nextChar < 0)
    (isItems : Items stream.remaining items) (basic : ∀ item ∈ items, item < 0x10000) :
    Pending stream items
  | waiting {items : List Int} (file : stream.kind = .file) (waits : 0 ≤ stream.nextChar)
    (isItems : Items stream.remaining items) (basic : ∀ item ∈ items, item < 0x10000)
    (basicNext : stream.nextChar < 0x10000) : Pending stream (stream.nextChar :: items)

/-- What one call of the filter leaves of the items. -/
def Yields (items : List Int) (outcome : Except Failure (Int × Stream)) : Prop :=
  ∃ value after items', outcome = .ok (value, after) ∧ value ≠ ueof ∧ Pending after items' ∧
    items'.length < items.length ∧ filterItems items = value :: filterItems items'

section Filter

variable (file : stream.kind = .file) (empty : stream.nextChar < 0)
  (isItems : Items stream.remaining items) (basic : ∀ item ∈ items, item < 0x10000)

include file empty isItems basic

/-- An item that is dealt with on its own. -/
theorem yields_alone (notHigh : ¬ IsHigh item) (notEnd : replaceItem item ≠ ueof) :
    Yields (item :: items) (.ok (replaceItem item, stream)) :=
  ⟨_, stream, items, rfl, notEnd, .fresh file empty isItems basic, Nat.lt_succ_self _,
    filterItems_cons notHigh items⟩

/-- The item behind a high surrogate is joined with it, waits for the next call, or is dropped. -/
theorem yields_high (isHigh : IsHigh item) :
    Yields (item :: items) (getuc stream >>= fun (clow, stream) =>
      if land clow 0xFC00 ≠ 0xDC00 then
        .ok (replacementCharacter, { stream with nextChar := clow })
      else .ok (clow + item * 2 ^ 10 + 0x10000 - 0xD800 * 2 ^ 10 - 0xDC00, stream)) := by
  have isReplaced : replaceItem item = replacementCharacter := if_pos (Or.inr (Or.inl isHigh))
  generalize isRemaining : stream.remaining = bytes at isItems
  cases isItems with
  | nil =>
    rw [getuc_end stream file isRemaining, ok_bind]
    dsimp only
    rw [if_pos (by decide), ← isReplaced]
    exact ⟨_, _, [], rfl, isReplaced ▸ by decide, .fresh file (show ueof < 0 by decide)
      (isRemaining ▸ .nil) (fun _ absent => by contradiction), Nat.zero_lt_one, rfl⟩
  | @cons _ rest second items reads isSecond _ more =>
    obtain ⟨after, answer, file', isRest, sameNext⟩ := reads stream file isRemaining
    have basicSecond := basic second List.mem_cons_self
    have basicRest : ∀ item ∈ items, item < 0x10000 :=
      fun item member => basic item (List.mem_cons_of_mem _ member)
    rw [answer, ok_bind]
    dsimp only
    by_cases isPair : IsLow second
    · rw [if_neg (not_not.mpr ((land_next_iff isSecond basicSecond).mpr isPair))]
      refine ⟨_, after, items, rfl, ?_, .fresh file' (sameNext ▸ empty) (isRest ▸ more)
        basicRest, Nat.lt_add_of_pos_right Nat.zero_lt_two, ?_⟩
      · have := isHigh.1
        have := isPair.1
        unfold ueof
        omega
      · rw [filterItems, if_pos ⟨isHigh, isPair⟩, joinSurrogates]
        congr 1
        omega
    · rw [if_pos fun low => isPair ((land_next_iff isSecond basicSecond).mp low), ← isReplaced]
      by_cases dropped : second < 0
      · refine ⟨_, _, items, rfl, isReplaced ▸ by decide,
          .fresh file' dropped (isRest ▸ more) basicRest, Nat.lt_add_of_pos_right Nat.zero_lt_two,
          ?_⟩
        rw [filterItems, if_neg fun both => isPair both.2, if_pos ⟨isHigh, dropped⟩]
      · refine ⟨_, { after with nextChar := second }, second :: items, rfl,
          isReplaced ▸ by decide, .waiting file' (show 0 ≤ second by omega) (isRest ▸ more)
            basicRest basicSecond, Nat.lt_succ_self _, ?_⟩
        rw [filterItems, if_neg fun both => isPair both.2, if_neg fun both => dropped both.2]

/-- The filter with an item in its hands, and more items in the stream. -/
theorem filterUc_yields (isItem : IsError item ∨ 0 ≤ item) (basicItem : item < 0x10000) :
    Yields (item :: items) (filterUc item stream) := by
  unfold filterUc
  rcases isItem with isError | nonneg
  · obtain ⟨negative, notEnd⟩ := isError.neg
    have isReplaced : replaceItem item = replacementCharacter := if_pos (Or.inl negative)
    rw [if_pos negative, if_neg notEnd, ← isReplaced]
    exact yields_alone file empty isItems basic (not_isHigh_of_neg negative)
      (isReplaced ▸ by decide)
  rw [if_neg (by omega)]
  by_cases surrogate : IsHigh item ∨ IsLow item
  · have isReplaced : replaceItem item = replacementCharacter := if_pos (Or.inr surrogate)
    rw [if_pos ((land_surrogate_iff nonneg basicItem).mpr surrogate)]
    by_cases isLow : IsLow item
    · rw [if_pos ((land_low_iff nonneg basicItem surrogate).mpr isLow), ← isReplaced]
      refine yields_alone file empty isItems basic (fun isHigh => ?_) (isReplaced ▸ by decide)
      have := isHigh.2
      have := isLow.1
      omega
    · rw [if_neg fun low => isLow ((land_low_iff nonneg basicItem surrogate).mp low)]
      exact yields_high file empty isItems basic (surrogate.resolve_right isLow)
  · have same : replaceItem item = item := if_neg fun bad => by
      rcases bad with negative | bad
      · omega
      · exact surrogate bad
    have notEnd : replaceItem item ≠ ueof := by rw [same]; unfold ueof; omega
    have alone := yields_alone file empty isItems basic (fun isHigh => surrogate (Or.inl isHigh))
      notEnd
    rw [if_neg fun masked => surrogate ((land_surrogate_iff nonneg basicItem).mp masked)]
    rwa [same] at alone

end Filter

/-- One call of the filter. -/
theorem Pending.step {stream : Stream} {item : Int} {items : List Int}
    (pending : Pending stream (item :: items)) : Yields (item :: items) (getucFiltered stream) := by
  rw [getucFiltered]
  cases pending with
  | fresh file empty isItems basic =>
    rw [if_neg (by omega)]
    generalize isRemaining : stream.remaining = bytes at isItems
    cases isItems with
    | cons reads isItem _ more =>
      obtain ⟨after, answer, file', isRest, sameNext⟩ := reads stream file isRemaining
      rw [answer, ok_bind]
      exact filterUc_yields file' (sameNext ▸ empty) (isRest ▸ more)
        (fun item member => basic item (List.mem_cons_of_mem _ member)) isItem
        (basic item List.mem_cons_self)
  | waiting file waits isItems basic basicNext =>
    rw [if_pos waits, ok_bind]
    exact filterUc_yields file (show (-1 : Int) < 0 by decide) isItems basic (Or.inr waits)
      basicNext

theorem Pending.ends {stream : Stream} (pending : Pending stream []) :
    ∃ after, getucFiltered stream = .ok (ueof, after) := by
  cases pending with
  | fresh file empty isItems basic =>
    generalize isRemaining : stream.remaining = bytes at isItems
    cases isItems with
    | nil =>
      rw [getucFiltered, if_neg (by omega), getuc_end stream file isRemaining]
      exact ⟨_, rfl⟩

/-- The calls of the filter up to the end. -/
theorem Pending.readToEnd {fuel : Nat} (pending : Pending stream items)
    (enough : items.length < fuel) :
    readToEnd getucFiltered fuel stream = .ok (filterItems items) := by
  induction fuel generalizing stream items with
  | zero => exact absurd enough (Nat.not_lt_zero _)
  | succ fuel inductionHypothesis =>
    rw [Dwdiff.readToEnd]
    cases items with
    | nil =>
      obtain ⟨after, answer⟩ := pending.ends
      rw [answer]
      rfl
    | cons item items =>
      obtain ⟨value, after, items', answer, notEnd, pending', fewer, isFiltered⟩ := pending.step
      rw [answer, ok_bind]
      dsimp only
      rw [if_neg notEnd, inductionHypothesis pending' (by omega), isFiltered]
      rfl

/-- Malformed input is replaced one for one, exactly when no high surrogate is directly
followed by an error. -/
theorem getucFiltered_replaces_iff (bytes : List UInt8) (items : List Int)
    (isItems : readToEnd getuc (bytes.length + 1) (newFileStream bytes) = .ok items)
    (basic : ∀ item ∈ items, item < 0x10000) :
    readToEnd getucFiltered (bytes.length + 1) (newFileStream bytes) = .ok (replaceItems items) ↔
      items.IsChain fun first second => ¬ (IsHigh first ∧ second < 0) := by
  obtain ⟨items', made⟩ := exists_items bytes
  have enough : items'.length < bytes.length + 1 := Nat.lt_succ_of_le made.length_le
  obtain rfl : items' = items :=
    Except.ok.inj ((made.readToEnd enough rfl rfl).symm.trans isItems)
  have pending : Pending (newFileStream bytes) items' :=
    .fresh rfl (show (-1 : Int) < 0 by decide) made basic
  rw [pending.readToEnd enough, ← filterItems_eq_iff]
  exact ⟨Except.ok.inj, congrArg Except.ok⟩

/-- A letter, a surrogate pair, and a byte that is no character. -/
theorem getucFiltered_replaces_pair :
    readToEnd getucFiltered 9 (newFileStream [0x61, 0xED, 0xA0, 0x80, 0xED, 0xB0, 0x80, 0xFF]) =
        .ok (replaceItems [0x61, 0xD800, 0xDC00, uetoolarge]) ↔
      [0x61, 0xD800, 0xDC00, uetoolarge].IsChain fun first second =>
        ¬ (IsHigh first ∧ second < 0) :=
  getucFiltered_replaces_iff [0x61, 0xED, 0xA0, 0x80, 0xED, 0xB0, 0x80, 0xFF] _ (by decide)
    (by decide)

/-- A high surrogate in front of a byte that is no character: one replacement is missing. -/
theorem getucFiltered_drops_error :
    readToEnd getuc 5 (newFileStream [0xED, 0xA0, 0x80, 0xFF]) = .ok [0xD800, uetoolarge] ∧
    replaceItems [0xD800, uetoolarge] = [replacementCharacter, replacementCharacter] ∧
    readToEnd getucFiltered 5 (newFileStream [0xED, 0xA0, 0x80, 0xFF]) =
      .ok [replacementCharacter] := by
  decide

end Dwdiff
