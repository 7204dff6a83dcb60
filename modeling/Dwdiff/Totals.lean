/-
This file is about the totals of the statistics. `readFile` counts words by hand
in some of its transitions and creates tokens in others: it does not count a
delimiter that is the first character of the file, nor the empty tokens between
paragraphs. The counts of the changes, on the other hand, always add up with the
words that are handled as common. Both hold in either character set, so the file
is about any dispatch table whose functions do not touch the tokens. The
percentages that are printed are exact unless a count is so large that a hundred
times the count overflows.
-/

import Dwdiff.Control
import Dwdiff.Paragraphs

namespace Dwdiff

open Diff Outcome

variable {Key : Type} {key : CharData → Key} {options : Options}
  {before after first second other : Reading} {wordCount wordCount' : Nat} {state : MatchState}

/-! ### Dispatch tables -/

/-- The same place in the input, and the same character, as far as `key` tells characters. -/
structure Twin {Key : Type} (key : CharData → Key) (first second : Reading) : Prop where
  input : first.input = second.input
  char : key first.charData = key second.charData

theorem Twin.refl (reading : Reading) : Twin key reading reading := ⟨rfl, rfl⟩

theorem Twin.symm (twin : Twin key first second) :
    Twin key second first := ⟨twin.input.symm, twin.char.symm⟩

theorem Twin.trans {third : Reading} (twin : Twin key first second)
    (twin' : Twin key second third) : Twin key first third :=
  ⟨twin.input.trans twin'.input, twin.char.trans twin'.char⟩

/-- The tokens and the table that numbers them were not touched. -/
structure SameTokens (before after : Reading) : Prop where
  diffTokens : after.diffTokens = before.diffTokens
  tokenWritten : after.tokenWritten = before.tokenWritten
  hashtable : after.hashtable = before.hashtable

/-- The functions of a table read and write characters only, and look at nothing else of the last
character than its key. -/
structure DispatchTable.Lawful {Key : Type} (key : CharData → Key) (table : DispatchTable) :
    Prop where
  getNextChar : ∀ {first second after : Reading} {more : Bool}, first.input = second.input →
    table.getNextChar first = .ok (more, after) →
    SameTokens first after ∧ after.whitespaceBuffer = first.whitespaceBuffer ∧
      ∃ after', table.getNextChar second = .ok (more, after') ∧
        (more = true → Twin key after after')
  isWhitespace : ∀ {first second : CharData}, key first = key second →
    table.isWhitespace first = table.isWhitespace second
  isDelimiter : ∀ {first second : CharData}, key first = key second →
    table.isDelimiter first = table.isDelimiter second
  writeTokenChar : ∀ {before after : Reading}, table.writeTokenChar before = .ok after →
    Twin key before after ∧ SameTokens before after ∧
      after.whitespaceBuffer = before.whitespaceBuffer
  writeWhitespaceChar : ∀ {first second after : Reading}, Twin key first second →
    table.writeWhitespaceChar first = .ok after →
    Twin key first after ∧ SameTokens first after ∧
      ∃ after', table.writeWhitespaceChar { second with whitespaceBuffer := [] } = .ok after' ∧
        after.whitespaceBuffer = first.whitespaceBuffer ++ after'.whitespaceBuffer
  writeWhitespaceDelimiter : ∀ {before after : Reading},
    table.writeWhitespaceDelimiter before = .ok after →
    Twin key before after ∧ SameTokens before after ∧
      after.whitespaceBuffer = before.whitespaceBuffer

theorem dispatchSC_lawful (options : Options) (locale : Locale) :
    DispatchTable.Lawful CharData.singleChar (dispatchSC options locale) where
  getNextChar := by
    intro first second after more sameInput returns
    change getNextCharSC first = _ at returns
    show _ ∧ _ ∧ ∃ after', getNextCharSC second = _ ∧ _
    unfold getNextCharSC at *
    rw [← sameInput]
    rcases reads : first.input.getChar with ⟨_ | byte, input⟩ <;> rw [reads] at returns
    · cases returns
      exact ⟨⟨rfl, rfl, rfl⟩, rfl, _, rfl, fun absurd' => by contradiction⟩
    · cases returns
      exact ⟨⟨rfl, rfl, rfl⟩, rfl, _, rfl, fun _ => ⟨rfl, rfl⟩⟩
  isWhitespace := fun same => by
    show isWhitespaceSC options _ = isWhitespaceSC options _
    rw [isWhitespaceSC, isWhitespaceSC, same]
  isDelimiter := fun same => by
    show isDelimiterSC options _ = isDelimiterSC options _
    rw [isDelimiterSC, isDelimiterSC, same]
  writeTokenChar := fun returns => by
    cases returns
    exact ⟨⟨rfl, rfl⟩, ⟨rfl, rfl, rfl⟩, rfl⟩
  writeWhitespaceChar := fun {first second after} twin returns => by
    cases returns
    refine ⟨⟨rfl, rfl⟩, ⟨rfl, rfl, rfl⟩, _, rfl, ?_⟩
    show _ ++ escapeByte first.charData.singleChar = _
    rw [twin.char]
    rfl
  writeWhitespaceDelimiter := fun returns => by
    cases returns
    exact ⟨⟨rfl, rfl⟩, ⟨rfl, rfl, rfl⟩, rfl⟩

/-- In UTF-8 mode the casefolded form is not looked at. -/
def CharData.cluster (charData : CharData) : List UInt16 × List UInt16 :=
  (charData.original, charData.converted)

theorem dispatchUTF8_lawful (options : Options) (locale : Locale) :
    DispatchTable.Lawful CharData.cluster (dispatchUTF8 options locale) where
  getNextChar := by
    intro first second after more sameInput returns
    change getNextCharUTF8 locale first = _ at returns
    show _ ∧ _ ∧ ∃ after', getNextCharUTF8 locale second = _ ∧ _
    unfold getNextCharUTF8 at *
    rw [← sameInput]
    obtain ⟨⟨cluster, input⟩, reads, returns⟩ := bind_eq_ok.mp returns
    rw [reads, ok_bind]
    cases cluster with
    | none =>
      cases returns
      exact ⟨⟨rfl, rfl, rfl⟩, rfl, _, rfl, fun absurd' => by contradiction⟩
    | some original =>
      cases returns
      exact ⟨⟨rfl, rfl, rfl⟩, rfl, _, rfl, fun _ => ⟨rfl, rfl⟩⟩
  isWhitespace := fun same => by
    show isWhitespaceUTF8 options locale _ = isWhitespaceUTF8 options locale _
    rw [isWhitespaceUTF8, isWhitespaceUTF8, (Prod.mk.inj same).2]
  isDelimiter := fun same => by
    show isDelimiterUTF8 options locale _ = isDelimiterUTF8 options locale _
    rw [isDelimiterUTF8, isDelimiterUTF8, (Prod.mk.inj same).2]
  writeTokenChar := fun {before after} returns => by
    change writeTokenCharUTF8 options locale before = _ at returns
    unfold writeTokenCharUTF8 at returns
    obtain ⟨charData, isData, same⟩ : ∃ charData, (if options.ignoreCase then
        { before.charData with casefolded := locale.foldCase before.charData.converted }
        else before.charData) = charData ∧ before.charData.cluster = charData.cluster := by
      refine ⟨_, rfl, ?_⟩
      split <;> rfl
    dsimp only at returns isData
    rw [isData] at returns
    obtain ⟨⟨word, _⟩, -, returns⟩ := bind_eq_ok.mp returns
    split at returns
    · cases returns
      exact ⟨⟨rfl, same⟩, ⟨rfl, rfl, rfl⟩, rfl⟩
    · obtain ⟨⟨bytes, highSurrogate⟩, -, returns⟩ := bind_eq_ok.mp returns
      cases returns
      exact ⟨⟨rfl, same⟩, ⟨rfl, rfl, rfl⟩, rfl⟩
  writeWhitespaceChar := fun {first second after} twin returns => by
    change writeWhitespaceCharUTF8 first = _ at returns
    show _ ∧ _ ∧ ∃ after', writeWhitespaceCharUTF8 { second with whitespaceBuffer := [] } = _ ∧ _
    unfold writeWhitespaceCharUTF8 at *
    dsimp only at returns ⊢
    rw [← (Prod.mk.inj twin.char).1]
    split at returns
    · next escapes =>
      cases returns
      rw [if_pos escapes]
      refine ⟨⟨rfl, rfl⟩, ⟨rfl, rfl, rfl⟩, _, rfl, ?_⟩
      rfl
    · next plain =>
      obtain ⟨⟨bytes, _⟩, converts, returns⟩ := bind_eq_ok.mp returns
      cases returns
      rw [if_neg plain, converts]
      refine ⟨⟨rfl, rfl⟩, ⟨rfl, rfl, rfl⟩, _, rfl, ?_⟩
      rfl
  writeWhitespaceDelimiter := fun {before after} returns => by
    change writeWhitespaceDelimiterUTF8 before = _ at returns
    obtain ⟨⟨bytes, highSurrogate⟩, -, returns⟩ := bind_eq_ok.mp returns
    cases returns
    exact ⟨⟨rfl, rfl⟩, ⟨rfl, rfl, rfl⟩, rfl⟩

theorem dispatch_lawful (options : Options) (locale : Locale) :
    ∃ (Key : Type) (key : CharData → Key), DispatchTable.Lawful key (dispatch options locale) := by
  unfold dispatch
  split
  · exact ⟨_, _, dispatchUTF8_lawful options locale⟩
  · exact ⟨_, _, dispatchSC_lawful options locale⟩

/-! ### What is counted and what is not -/

/-- Whether the end of a run with so many newlines makes an empty token. -/
def endsParagraph (options : Options) (tokenWritten : Bool) (newlines : Nat) : Bool :=
  options.paraDelim && (decide (2 ≤ newlines) || (!tokenWritten && decide (1 ≤ newlines)))

/-- The newlines that a character brings into the whitespace buffer. -/
def newlinesOf (table : DispatchTable) (reading : Reading) : Category → Except Failure Nat
  | .whitespace => do
    let reading ← table.writeWhitespaceChar { reading with whitespaceBuffer := [] }
    .ok (reading.whitespaceBuffer.count 10)
  | _ => .ok 0

/-- The text that `readFile` sees: the category of each character, and its newlines. -/
def textSeen (table : DispatchTable) : Nat → Reading → Except Failure (List (Category × Nat))
  | 0, _ => .error .diverges
  | fuel + 1, reading => do
    let (more, reading) ← table.getNextChar reading
    if more then do
      let category ← classifyChar table reading.charData
      let newlines ← newlinesOf table reading category
      let rest ← textSeen table fuel reading
      .ok ((category, newlines) :: rest)
    else .ok []

/-- The number of paragraphs that end in a text: in front of a word or at the end of the file a
run ends with the tokens before it, in front of a delimiter it ends behind the delimiter's. -/
def paragraphTokens (options : Options) : (tokenWritten : Bool) → (newlines : Nat) →
    List (Category × Nat) → Nat
  | tokenWritten, newlines, [] => (endsParagraph options tokenWritten newlines).toNat
  | tokenWritten, newlines, (.whitespace, more) :: rest =>
    paragraphTokens options tokenWritten (newlines + more) rest
  | _, newlines, (.delimiter, _) :: rest =>
    (endsParagraph options true newlines).toNat + paragraphTokens options true 0 rest
  | tokenWritten, newlines, (.other, _) :: rest =>
    (endsParagraph options tokenWritten newlines).toNat + paragraphTokens options true 0 rest

/-- The text starts with a delimiter. -/
def startsWithDelimiter : List (Category × Nat) → Bool
  | (.delimiter, _) :: _ => true
  | _ => false

/-- The tokens that are missing in the total of a file. -/
def uncounted (options : Options) (text : List (Category × Nat)) : Nat :=
  (startsWithDelimiter text).toNat + paragraphTokens options false 0 text

theorem splitIndex_isSome (options : Options) (reading : Reading) :
    (splitIndex options reading).isSome =
      endsParagraph options reading.tokenWritten (reading.whitespaceBuffer.count 10) := by
  unfold splitIndex endsParagraph
  cases options.paraDelim with
  | false => rfl
  | true =>
    rw [if_pos rfl, Bool.true_and]
    rcases newline_cases reading.whitespaceBuffer with absent | ⟨before, after, isBuffer, absent⟩
    · rw [findNewlines_none absent, List.count_eq_zero.mpr absent]
      simp
    · have number : reading.whitespaceBuffer.count 10 = after.count 10 + 1 := by
        rw [isBuffer, List.count_append, List.count_eq_zero.mpr absent, List.count_cons_self,
          Nat.zero_add]
      rw [number, isBuffer, findNewlines_append absent]
      dsimp only
      by_cases again : (10 : UInt8) ∈ after
      · have positive := List.count_pos_iff.mpr again
        have two : 2 ≤ after.count 10 + 1 := by omega
        cases reading.tokenWritten <;> simp [again, two]
      · have one : ¬ 2 ≤ after.count 10 + 1 := by
          rw [List.count_eq_zero.mpr again]
          omega
        cases reading.tokenWritten <;> simp [again, one]

/-! ### The numbers of the words -/

/-- The table numbers its strings, at least `low` of them, and the tokens have such numbers. -/
def Numbered (low : Nat) (reading : Reading) : Prop :=
  ∃ known, Interns reading.hashtable known ∧ low ≤ known.length ∧ known.length ≤ valueMax ∧
    ∀ id ∈ reading.diffTokens, id < known.length

/-- A call of `getValue` that returns gives a number of the table, which may have grown. -/
theorem getValue_numbers {table after : Hashtable} {known : List (List UInt8)}
    {data : List UInt8} {value : Nat} (interns : Interns table known)
    (small : known.length ≤ valueMax) (returns : getValue table data = .ok (value, after)) :
    ∃ known', Interns after known' ∧ known.length ≤ known'.length ∧ known'.length ≤ valueMax ∧
      value < known'.length := by
  by_cases seen : data ∈ known
  · rw [getValue, interns.find_known seen] at returns
    cases returns
    exact ⟨known, interns, le_rfl, small, List.idxOf_lt_length_iff.mpr seen⟩
  · have room : known.length < valueMax := by
      refine lt_of_le_of_ne small fun full => ?_
      rw [getValue, interns.find_fresh seen] at returns
      obtain ⟨_, asserted, -⟩ := bind_eq_ok.mp returns
      rw [assert, interns.nextValue, full] at asserted
      simp at asserted
    obtain ⟨after', value', interns'⟩ := getValue_eq interns data room
    rw [value'] at returns
    cases returns
    have isFresh := Interning.intern_fresh seen
    have member := Interning.mem_intern known data
    have longer : (Interning.intern known data).length = known.length + 1 := by simp [isFresh]
    exact ⟨_, interns', by omega, by omega, List.idxOf_lt_length_iff.mpr member⟩

section Counting

variable {table : DispatchTable}

/-- So many tokens more, at the same place of the input. -/
structure Adds (key : CharData → Key) (count : Nat) (before after : Reading) : Prop where
  twin : Twin key before after
  length : after.diffTokens.length = before.diffTokens.length + count
  written : before.tokenWritten = true → after.tokenWritten = true
  numbered : ∀ low, Numbered low before → Numbered low after

theorem Adds.trans {third : Reading} {count count' : Nat} (adds : Adds key count first second)
    (adds' : Adds key count' second third) : Adds key (count + count') first third :=
  ⟨adds.twin.trans adds'.twin, by rw [adds'.length, adds.length, add_assoc],
    fun written => adds'.written (adds.written written),
    fun low numbered => adds'.numbered low (adds.numbered low numbered)⟩

theorem SameTokens.numbered (same : SameTokens before after) {low : Nat}
    (numbered : Numbered low before) : Numbered low after := by
  obtain ⟨known, interns, atLeast, atMost, small⟩ := numbered
  exact ⟨known, by rwa [same.hashtable], atLeast, atMost, by rwa [same.diffTokens]⟩

theorem SameTokens.adds (same : SameTokens before after) (twin : Twin key before after) :
    Adds key 0 before after :=
  ⟨twin, by rw [same.diffTokens, add_zero], fun written => same.tokenWritten.trans written,
    fun _ => same.numbered⟩

theorem writeEndOfToken_adds {before after : Reading}
    (returns : writeEndOfToken before = .ok after) :
    Adds key 1 before after ∧ after.tokenWritten = true ∧
      after.whitespaceBuffer = before.whitespaceBuffer := by
  obtain ⟨⟨value, table⟩, values, isAfter⟩ := bind_eq_ok.mp returns
  cases isAfter
  refine ⟨⟨⟨rfl, rfl⟩, by simp, fun _ => rfl, fun low numbered => ?_⟩, rfl, rfl⟩
  obtain ⟨known, interns, atLeast, atMost, small⟩ := numbered
  obtain ⟨known', interns', longer, atMost', isNew⟩ := getValue_numbers interns atMost values
  refine ⟨known', interns', by omega, atMost', fun id isOne => ?_⟩
  rcases List.mem_append.mp isOne with isOld | isLast
  · exact lt_of_lt_of_le (small id isOld) longer
  · rwa [List.mem_singleton.mp isLast]

/-- Whether a token was begun, so that two newlines are needed for a paragraph. -/
def tokenSeen (state : MatchState) (reading : Reading) : Bool :=
  reading.tokenWritten || state == .word

/-- The paragraphs that are still to end. -/
def paragraphsLeft (options : Options) (state : MatchState) (reading : Reading)
    (text : List (Category × Nat)) : Nat :=
  paragraphTokens options (tokenSeen state reading) (reading.whitespaceBuffer.count 10) text

/-- What is kept between two rounds of the loop: only in state WHITESPACE the buffer is used. -/
def BufferUsed (state : MatchState) (reading : Reading) : Prop :=
  state ≠ .whitespace → reading.whitespaceBuffer = []

theorem endsParagraph_zero (options : Options) (tokenWritten : Bool) :
    endsParagraph options tokenWritten 0 = false := by
  simp [endsParagraph]

/-- What a round of the loop adds, against what it counts. -/
structure Counted (key : CharData → Key) (options : Options) (category : Category) (newlines : Nat)
    (state state' : MatchState) (wordCount wordCount' : Nat) (before after : Reading) : Prop where
  twin : Twin key before after
  begun : (state' == .none) = false
  used : BufferUsed state' after
  numbered : ∀ low, Numbered low before → Numbered low after
  few : after.diffTokens.length ≤ before.diffTokens.length + 3
  balance : ∀ rest, after.diffTokens.length + wordCount + paragraphsLeft options state' after rest =
    before.diffTokens.length + wordCount' +
      paragraphsLeft options state before ((category, newlines) :: rest) +
      (state == .none && category == .delimiter).toNat

/-- A delimiter was written, and the run before it has ended. -/
theorem counted_delimiter {count : Nat} (newlines : Nat) (adds : Adds key count before after)
    (few : count ≤ 3) (written : after.tokenWritten = true) (empty : after.whitespaceBuffer = [])
    (isCount : count + wordCount = wordCount' +
      (endsParagraph options true (before.whitespaceBuffer.count 10)).toNat +
      (state == .none).toNat) :
    Counted key options .delimiter newlines state .whitespace wordCount wordCount' before
      after := by
  refine ⟨adds.twin, rfl, fun absurd' => absurd rfl absurd', adds.numbered, ?_, fun rest => ?_⟩
  · rw [adds.length]
    omega
  · rw [adds.length, paragraphsLeft, paragraphsLeft, paragraphTokens, empty, tokenSeen, written]
    simp only [Bool.true_or, List.count_nil, beq_self_eq_true, Bool.and_true]
    omega

section Lawful

variable (lawful : DispatchTable.Lawful key table)

include lawful

/-- The end of a run adds an empty token if it ends a paragraph. -/
theorem handleWhitespaceEnd_adds (returns : handleWhitespaceEnd options table before = .ok after) :
    Adds key (endsParagraph options before.tokenWritten (before.whitespaceBuffer.count 10)).toNat
      before after ∧ after.whitespaceBuffer = [] := by
  rw [handleWhitespaceEnd_eq] at returns
  rw [← splitIndex_isSome]
  -- Writing a run and emptying the buffer do not touch the tokens.
  have runs : ∀ {before after : Reading} {whitespace : List UInt8},
      table.writeWhitespaceDelimiter { before with whitespace } = .ok after →
      Adds key 0 before after := fun writes => by
    obtain ⟨twin, same, -⟩ := lawful.writeWhitespaceDelimiter writes
    exact ⟨⟨twin.input, twin.char⟩, by rw [same.diffTokens, add_zero],
      fun written => same.tokenWritten.trans written, fun low numbered => same.numbered numbered⟩
  have clears : ∀ reading : Reading, Adds key 0 reading { reading with whitespaceBuffer := [] } :=
    fun reading => ⟨⟨rfl, rfl⟩, rfl, id, fun _ => id⟩
  cases isSplit : splitIndex options before with
  | none =>
    rw [isSplit] at returns
    obtain ⟨reading1, writes1, isAfter⟩ := bind_eq_ok.mp returns
    cases isAfter
    exact ⟨(runs writes1).trans (clears reading1), rfl⟩
  | some index =>
    rw [isSplit] at returns
    obtain ⟨reading1, writes1, returns⟩ := bind_eq_ok.mp returns
    obtain ⟨reading2, writes2, returns⟩ := bind_eq_ok.mp returns
    obtain ⟨reading3, writes3, isAfter⟩ := bind_eq_ok.mp returns
    cases isAfter
    exact ⟨(((runs writes1).trans (runs writes2)).trans (writeEndOfToken_adds writes3).1).trans
      (clears reading3), rfl⟩

theorem classifyChar_twin {first second : CharData}
    (alike : key first = key second) : classifyChar table first = classifyChar table second := by
  rw [classifyChar, classifyChar, lawful.isDelimiter alike, lawful.isWhitespace alike]

theorem writeWhitespaceChar_adds (twin : Twin key before other)
    (returns : table.writeWhitespaceChar before = .ok after) :
    Adds key 0 before after ∧ after.tokenWritten = before.tokenWritten ∧
      ∃ newlines, newlinesOf table other .whitespace = .ok newlines ∧
        after.whitespaceBuffer.count 10 = before.whitespaceBuffer.count 10 + newlines := by
  obtain ⟨twin', same, written, writes, isBuffer⟩ := lawful.writeWhitespaceChar twin returns
  refine ⟨same.adds twin', same.tokenWritten, written.whitespaceBuffer.count 10, ?_, ?_⟩
  · rw [newlinesOf, writes]
    rfl
  · rw [isBuffer, List.count_append]

theorem writeTokenChar_adds (returns : table.writeTokenChar before = .ok after) :
    Adds key 0 before after ∧ after.tokenWritten = before.tokenWritten ∧
      after.whitespaceBuffer = before.whitespaceBuffer := by
  obtain ⟨twin, same, isBuffer⟩ := lawful.writeTokenChar returns
  exact ⟨same.adds twin, same.tokenWritten, isBuffer⟩

/-- A character of whitespace goes to the buffer. -/
theorem counted_whitespace {between : Reading} {count : Nat}
    (adds : Adds key count before between) (few : count ≤ 3)
    (isCount : wordCount' = wordCount + count)
    (seen : between.tokenWritten = tokenSeen state before)
    (same : between.whitespaceBuffer.count 10 = before.whitespaceBuffer.count 10)
    (twin : Twin key before other) (returns : table.writeWhitespaceChar between = .ok after) :
    ∃ newlines, newlinesOf table other .whitespace = .ok newlines ∧
      Counted key options .whitespace newlines state .whitespace wordCount wordCount' before
        after := by
  obtain ⟨adds', written, newlines, isNewlines, counts⟩ :=
    writeWhitespaceChar_adds lawful (adds.twin.symm.trans twin) returns
  have total := adds.trans adds'
  refine ⟨newlines, isNewlines, total.twin, rfl, fun absurd' => absurd rfl absurd', total.numbered,
    ?_, fun rest => ?_⟩
  · rw [total.length]
    omega
  · rw [total.length, paragraphsLeft, paragraphsLeft, paragraphTokens, counts, same, tokenSeen,
      written, seen]
    have noDelimiter : (state == .none && Category.whitespace == .delimiter) = false := by
      cases state <;> rfl
    rw [noDelimiter]
    simp only [tokenSeen, Bool.or_false, Bool.toNat_false, show
      (MatchState.whitespace == .word) = false from rfl]
    omega

/-- A word begins; the run before it has ended. -/
theorem counted_begin {ended : Reading} (wordCount newlines : Nat) (notWord : state ≠ .word)
    (ends : handleWhitespaceEnd options table before = .ok ended)
    (writes : table.writeTokenChar ended = .ok after) :
    Counted key options .other newlines state .word wordCount wordCount before after := by
  obtain ⟨adds, empty⟩ := handleWhitespaceEnd_adds lawful ends
  obtain ⟨adds', -, sameBuffer⟩ := writeTokenChar_adds lawful writes
  have total := adds.trans adds'
  have isEmpty : after.whitespaceBuffer = [] := sameBuffer.trans empty
  have one := Bool.toNat_le
    (endsParagraph options before.tokenWritten (before.whitespaceBuffer.count 10))
  have seen : tokenSeen state before = before.tokenWritten := by
    cases state <;> simp_all [tokenSeen]
  refine ⟨total.twin, rfl, fun _ => isEmpty, total.numbered, ?_, fun rest => ?_⟩
  · rw [total.length]
    omega
  · rw [total.length, paragraphsLeft, paragraphsLeft, paragraphTokens, isEmpty, seen]
    have noDelimiter : (state == .none && Category.other == .delimiter) = false := by
      cases state <;> rfl
    rw [noDelimiter]
    simp only [tokenSeen, beq_self_eq_true, Bool.or_true, List.count_nil, Bool.toNat_false]
    omega

/-- One round of the loop. -/
theorem readStep_counted {category : Category} {state' : MatchState}
    (used : BufferUsed state before) (twin : Twin key before other)
    (returns : readStep options table category state wordCount before =
      .ok (state', wordCount', after)) :
    ∃ newlines, newlinesOf table other category = .ok newlines ∧
      Counted key options category newlines state state' wordCount wordCount' before after := by
  have nothing : ∀ {reading : Reading}, Adds key 0 reading reading :=
    fun {reading} => ⟨.refl reading, rfl, id, fun _ => id⟩
  cases category with
  | whitespace =>
    cases state with
    | none | whitespace =>
      obtain ⟨reading1, writes, isAfter⟩ := bind_eq_ok.mp returns
      cases isAfter
      exact counted_whitespace lawful nothing (by decide) rfl (by simp [tokenSeen]) rfl twin writes
    | word =>
      obtain ⟨reading1, closes, returns⟩ := bind_eq_ok.mp returns
      obtain ⟨reading2, writes, isAfter⟩ := bind_eq_ok.mp returns
      cases isAfter
      obtain ⟨adds1, written1, buffer1⟩ := writeEndOfToken_adds closes
      exact counted_whitespace lawful adds1 (by decide) rfl (by simp [tokenSeen, written1])
        (by rw [buffer1]) twin writes
  | other =>
    cases state with
    | none | whitespace =>
      obtain ⟨reading1, ends, returns⟩ := bind_eq_ok.mp returns
      obtain ⟨reading2, writes, isAfter⟩ := bind_eq_ok.mp returns
      cases isAfter
      exact ⟨0, rfl, counted_begin lawful wordCount 0 (by decide) ends writes⟩
    | word =>
      have empty := used (by decide)
      obtain ⟨reading1, writes, isAfter⟩ := bind_eq_ok.mp returns
      cases isAfter
      obtain ⟨adds1, -, buffer1⟩ := writeTokenChar_adds lawful writes
      have isEmpty := buffer1.trans empty
      refine ⟨0, rfl, adds1.twin, rfl, fun _ => isEmpty, adds1.numbered,
        by rw [adds1.length]; omega, fun rest => ?_⟩
      rw [adds1.length, paragraphsLeft, paragraphsLeft, paragraphTokens, isEmpty, empty,
        List.count_nil, endsParagraph_zero]
      simp [tokenSeen]
  | delimiter =>
    cases state with
    | none =>
      have empty := used (by decide)
      obtain ⟨reading1, ends, returns⟩ := bind_eq_ok.mp returns
      obtain ⟨reading2, writes, returns⟩ := bind_eq_ok.mp returns
      obtain ⟨reading3, closes, isAfter⟩ := bind_eq_ok.mp returns
      cases isAfter
      obtain ⟨adds1, empty1⟩ := handleWhitespaceEnd_adds lawful ends
      obtain ⟨adds2, -, buffer2⟩ := writeTokenChar_adds lawful writes
      obtain ⟨adds3, written3, buffer3⟩ := writeEndOfToken_adds closes
      rw [empty, List.count_nil, endsParagraph_zero] at adds1
      refine ⟨0, rfl, counted_delimiter 0 ((adds1.trans adds2).trans adds3) (by simp) written3
        (buffer3.trans (buffer2.trans empty1)) ?_⟩
      rw [empty, List.count_nil, endsParagraph_zero]
      simp
      omega
    | word =>
      have empty := used (by decide)
      obtain ⟨reading1, closes, returns⟩ := bind_eq_ok.mp returns
      obtain ⟨reading2, writes, returns⟩ := bind_eq_ok.mp returns
      obtain ⟨reading3, closes', returns⟩ := bind_eq_ok.mp returns
      obtain ⟨reading4, ends, isAfter⟩ := bind_eq_ok.mp returns
      cases isAfter
      obtain ⟨adds1, -, buffer1⟩ := writeEndOfToken_adds closes
      obtain ⟨adds2, -, buffer2⟩ := writeTokenChar_adds lawful writes
      obtain ⟨adds3, written3, buffer3⟩ := writeEndOfToken_adds closes'
      obtain ⟨adds4, empty4⟩ := handleWhitespaceEnd_adds lawful ends
      have isEmpty : reading3.whitespaceBuffer = [] :=
        buffer3.trans (buffer2.trans (buffer1.trans empty))
      rw [isEmpty, List.count_nil, endsParagraph_zero] at adds4
      refine ⟨0, rfl, counted_delimiter 0 (((adds1.trans adds2).trans adds3).trans adds4) (by simp)
        (adds4.written written3) empty4 ?_⟩
      rw [empty, List.count_nil, endsParagraph_zero,
        show (MatchState.word == MatchState.none) = false from rfl]
      simp only [Bool.toNat_false]
      omega
    | whitespace =>
      obtain ⟨reading1, writes, returns⟩ := bind_eq_ok.mp returns
      obtain ⟨reading2, closes, returns⟩ := bind_eq_ok.mp returns
      obtain ⟨reading3, ends, isAfter⟩ := bind_eq_ok.mp returns
      cases isAfter
      obtain ⟨adds1, -, buffer1⟩ := writeTokenChar_adds lawful writes
      obtain ⟨adds2, written2, buffer2⟩ := writeEndOfToken_adds closes
      obtain ⟨adds3, empty3⟩ := handleWhitespaceEnd_adds lawful ends
      rw [written2, buffer2, buffer1] at adds3
      have one := Bool.toNat_le
        (endsParagraph options true (before.whitespaceBuffer.count 10))
      refine ⟨0, rfl, counted_delimiter 0 ((adds1.trans adds2).trans adds3) (by omega)
        (adds3.written written2) empty3 ?_⟩
      rw [show (MatchState.whitespace == MatchState.none) = false from rfl]
      simp only [Bool.toNat_false]
      omega

theorem finishReading_counted (used : BufferUsed state before)
    (returns : finishReading options table state wordCount before = .ok (wordCount', after)) :
    (∀ low, Numbered low before → Numbered low after) ∧
      after.diffTokens.length ≤ before.diffTokens.length + 3 ∧
      after.diffTokens.length + wordCount =
        before.diffTokens.length + wordCount' + paragraphsLeft options state before [] := by
  obtain ⟨reading1, ends, returns⟩ := bind_eq_ok.mp returns
  obtain ⟨adds1, -⟩ := handleWhitespaceEnd_adds lawful ends
  have one := Bool.toNat_le
    (endsParagraph options before.tokenWritten (before.whitespaceBuffer.count 10))
  have length1 := adds1.length
  -- Outside of a word only the end of the run counts.
  have outside : state ≠ .word → .ok (wordCount, reading1) =
      (.ok (wordCount', after) : Except Failure (Nat × Reading)) →
      (∀ low, Numbered low before → Numbered low after) ∧
        after.diffTokens.length ≤ before.diffTokens.length + 3 ∧
        after.diffTokens.length + wordCount =
          before.diffTokens.length + wordCount' + paragraphsLeft options state before [] := by
    intro notWord isAfter
    cases isAfter
    have seen : tokenSeen state before = before.tokenWritten := by
      cases state <;> simp_all [tokenSeen]
    rw [paragraphsLeft, seen, paragraphTokens]
    exact ⟨adds1.numbered, by omega, by omega⟩
  cases state with
  | none | whitespace => exact outside (by decide) returns
  | word =>
    obtain ⟨reading2, closes, isAfter⟩ := bind_eq_ok.mp returns
    cases isAfter
    obtain ⟨adds2, -, -⟩ := @writeEndOfToken_adds _ key _ _ closes
    have length2 := adds2.length
    rw [used (by decide), List.count_nil, endsParagraph_zero, Bool.toNat_false] at length1
    rw [paragraphsLeft, used (by decide), List.count_nil, paragraphTokens, endsParagraph_zero,
      Bool.toNat_false]
    exact ⟨fun low numbered => adds2.numbered low (adds1.numbered low numbered), by omega, by omega⟩

/-- The loop and what follows it: the tokens that were made and the words that were counted differ
by what the text says. -/
theorem readLoop_counted {final : Reading} (fuel : Nat) :
    ∀ {state : MatchState} {wordCount : Nat} {reading other : Reading}, BufferUsed state reading →
      reading.input = other.input →
      (readLoop options table fuel state wordCount reading >>= fun result =>
        finishReading options table result.1 result.2.1 result.2.2) = .ok (wordCount', final) →
      ∃ text, textSeen table fuel other = .ok text ∧
        (∀ low, Numbered low reading → Numbered low final) ∧
        final.diffTokens.length ≤ reading.diffTokens.length + 3 * fuel ∧
        final.diffTokens.length + wordCount = reading.diffTokens.length + wordCount' +
          paragraphsLeft options state reading text +
          (state == .none && startsWithDelimiter text).toNat := by
  induction fuel with
  | zero => exact fun _ _ absurd' => by contradiction
  | succ fuel inductionHypothesis =>
    intro state wordCount reading other used sameInput returns
    obtain ⟨⟨state', count', reading'⟩, loops, finishes⟩ := bind_eq_ok.mp returns
    obtain ⟨⟨more, read⟩, reads, loops⟩ := bind_eq_ok.mp loops
    obtain ⟨same, buffer, otherRead, reads', twinRead⟩ := lawful.getNextChar sameInput reads
    have usedRead : BufferUsed state read := fun notWhitespace => buffer.trans (used notWhitespace)
    have left : ∀ text, paragraphsLeft options state read text =
        paragraphsLeft options state reading text := fun text => by
      rw [paragraphsLeft, paragraphsLeft, tokenSeen, tokenSeen, same.tokenWritten, buffer]
    have sameLength : read.diffTokens.length = reading.diffTokens.length := by
      rw [same.diffTokens]
    rw [textSeen, reads', ok_bind]
    dsimp only at loops ⊢
    cases more with
    | false =>
      rw [if_neg Bool.false_ne_true] at loops ⊢
      obtain ⟨rfl, rfl, rfl⟩ : state = state' ∧ wordCount = count' ∧ read = reading' := by
        simpa using loops
      dsimp only at finishes
      obtain ⟨numbered, few, balance⟩ := finishReading_counted lawful usedRead finishes
      rw [left] at balance
      refine ⟨[], rfl, fun low isNumbered => numbered low (same.numbered isNumbered), by omega, ?_⟩
      simp only [startsWithDelimiter, Bool.and_false, Bool.toNat_false]
      omega
    | true =>
      rw [if_pos rfl] at loops ⊢
      obtain ⟨category, classifies, loops⟩ := bind_eq_ok.mp loops
      obtain ⟨⟨state1, count1, reading1⟩, steps, loops⟩ := bind_eq_ok.mp loops
      replace twinRead := twinRead rfl
      obtain ⟨newlines, isNewlines, counted⟩ := readStep_counted lawful usedRead twinRead steps
      obtain ⟨rest, isRest, numbered, few, balance⟩ := inductionHypothesis counted.used
        (counted.twin.symm.trans twinRead).input (by rw [loops, ok_bind]; exact finishes)
      have step := counted.balance rest
      have fewer := counted.few
      rw [left] at step
      refine ⟨(category, newlines) :: rest, ?_, fun low isNumbered => numbered low
        (counted.numbered low (same.numbered isNumbered)), by omega, ?_⟩
      · rw [← classifyChar_twin lawful twinRead.char, classifies, ok_bind, isNewlines, ok_bind,
          isRest, ok_bind]
      · have later : (state1 == .none && startsWithDelimiter rest) = false := by
          rw [counted.begun, Bool.false_and]
        have first : startsWithDelimiter ((category, newlines) :: rest) =
            (category == .delimiter) := by
          cases category <;> rfl
        rw [later] at balance
        rw [first]
        simp only [Bool.toNat_false] at balance
        omega

end Lawful

end Counting

/-! ### The statistics of a run -/

section Statistics

variable {locale : Locale}

/-- The text of a file. The character that was read before does not matter. -/
def fileText (options : Options) (locale : Locale) (input : List UInt8) :
    Except Failure (List (Category × Nat)) :=
  textSeen (dispatch options locale) (input.length + 2)
    (startReading input ⟨0, [], [], []⟩ Hashtable.empty)

theorem readFile_counted {input : List UInt8} {charData : CharData} {hashtable : Hashtable}
    {low : Nat} {reading : Reading}
    (numbered : Numbered low (startReading input charData hashtable))
    (returns : readFile options locale input charData hashtable = .ok (wordCount, reading)) :
    ∃ text, fileText options locale input = .ok text ∧ Numbered low reading ∧
      reading.diffTokens.length ≤ 3 * (input.length + 2) ∧
      reading.diffTokens.length = wordCount + uncounted options text := by
  obtain ⟨Key, key, lawful⟩ := dispatch_lawful options locale
  have fresh : BufferUsed .none (startReading input charData hashtable) := fun _ => rfl
  have same : (startReading input charData hashtable).input =
      (startReading input ⟨0, [], [], []⟩ Hashtable.empty).input := rfl
  obtain ⟨text, isText, numbered', few, balance⟩ := readLoop_counted lawful (input.length + 2)
    fresh same returns
  refine ⟨text, isText, numbered' low numbered, ?_, ?_⟩
  · exact few.trans_eq (Nat.zero_add _)
  · have missing : uncounted options text =
        paragraphsLeft options .none (startReading input charData hashtable) text +
          ((MatchState.none == .none) && startsWithDelimiter text).toNat :=
      Nat.add_comm _ _
    have none : (startReading input charData hashtable).diffTokens.length = 0 := rfl
    omega

/-- The words that are handled as common: those before a change, and those behind the last
change. -/
def commonWords (state : Printing) : Int :=
  commonSteps state.steps + (state.newFile.diffTokens.length - state.newFile.lastPrinted)

/-- What the statistics should say. -/
structure AddUp (executed : Executed) : Prop where
  oldTotal : executed.oldTotal = executed.state.oldFile.diffTokens.length
  newTotal : executed.newTotal = executed.state.newFile.diffTokens.length
  oldCommon : (executed.oldTotal : Int) - executed.state.statistics.deleted -
    executed.state.statistics.oldChanged = commonWords executed.state
  newCommon : (executed.newTotal : Int) - executed.state.statistics.added -
    executed.state.statistics.newChanged = commonWords executed.state

/-- The statistics add up exactly if both totals were counted right, that is, if no file starts
with a delimiter and no paragraph ends. The words are counted in an `int`, and so are the bytes that
are written for a run, three for a byte that is replaced. -/
theorem statistics_addUp_iff {old new : List UInt8} {charData : CharData} {executed : Executed}
    (size : 3 * (old.length + new.length) < 2 ^ 31)
    (returns : prepareAndExecuteDiff options locale old new charData initialPrinting =
      .ok executed) :
    ∃ oldText newText, fileText options locale old = .ok oldText ∧
      fileText options locale new = .ok newText ∧
      (AddUp executed ↔ uncounted options oldText = 0 ∧ uncounted options newText = 0) := by
  obtain ⟨⟨oldTotal, oldReading⟩, readsOld, returns⟩ := bind_eq_ok.mp returns
  obtain ⟨⟨newTotal, newReading⟩, readsNew, returns⟩ := bind_eq_ok.mp returns
  obtain ⟨final, diffs, isExecuted⟩ := bind_eq_ok.mp returns
  cases isExecuted
  obtain ⟨oldText, isOldText, oldNumbered, oldFew, oldBalance⟩ := readFile_counted
    ⟨[], Interns.empty, le_rfl, Nat.zero_le _, by simp [startReading]⟩ readsOld
  obtain ⟨known, interns, -, small, oldSmall⟩ := oldNumbered
  obtain ⟨newText, isNewText, newNumbered, newFew, newBalance⟩ := readFile_counted
    ⟨known, interns, le_rfl, small, by simp [startReading]⟩ readsNew
  obtain ⟨known', interns', longer, small', newSmall⟩ := newNumbered
  have isMax : (initialPrinting.filled oldReading newReading).baseHashMax = known'.length :=
    interns'.nextValue
  have fitting : Fitting oldReading.diffTokens newReading.diffTokens
      (initialPrinting.filled oldReading newReading).baseHashMax := by
    rw [isMax]
    exact ⟨fun word isOne => lt_of_lt_of_le (oldSmall word isOne) longer, newSmall, small',
      by omega⟩
  obtain ⟨p, q, inStep, steered⟩ := (@doDiff_steered options locale _ _ False (fun _ => True) _
    fitting ⟨rfl, rfl⟩ rfl False.elim (fun _ _ => trivial) (Or.inl trivial)).of_ok diffs
  have lengths := inStep.lengths
  -- The words that are not counted as changed are those that are handled as common.
  have oldRest : (oldReading.diffTokens.length : Int) - final.statistics.deleted -
      final.statistics.oldChanged = commonWords final := by
    have tally : final.statistics.oldWords + commonSteps final.steps = 0 + p := steered.oldTally
    rw [Statistics.oldWords] at tally
    rw [commonWords, steered.tokens.2, steered.printed.2]
    omega
  have newRest : (newReading.diffTokens.length : Int) - final.statistics.added -
      final.statistics.newChanged = commonWords final := by
    have tally : final.statistics.newWords + commonSteps final.steps = 0 + q := steered.newTally
    rw [Statistics.newWords] at tally
    rw [commonWords, steered.tokens.2, steered.printed.2]
    omega
  refine ⟨oldText, newText, isOldText, isNewText, fun addUp => ?_, ?_⟩
  · have oldEqual := addUp.oldTotal
    have newEqual := addUp.newTotal
    rw [steered.tokens.1] at oldEqual
    rw [steered.tokens.2] at newEqual
    dsimp only at oldEqual newEqual
    omega
  · rintro ⟨noneOld, noneNew⟩
    have oldEqual : oldTotal = oldReading.diffTokens.length := by omega
    have newEqual : newTotal = newReading.diffTokens.length := by omega
    refine ⟨?_, ?_, ?_, ?_⟩
    · rw [steered.tokens.1]
      exact oldEqual
    · rw [steered.tokens.2]
      exact newEqual
    · rw [← oldRest, ← oldEqual]
    · rw [← newRest, ← newEqual]

/-- A comma as a delimiter. -/
def commaOptions : Options :=
  { defaultOptions with delimiters := commaSet }

theorem statistics_addUp_iff_words :
    ∃ executed, prepareAndExecuteDiff commaOptions cLocale [97, 44, 98] [97, 32, 98] ⟨0, [], [], []⟩
        initialPrinting = .ok executed ∧
      ∃ oldText newText, fileText commaOptions cLocale [97, 44, 98] = .ok oldText ∧
        fileText commaOptions cLocale [97, 32, 98] = .ok newText ∧
        (AddUp executed ↔
          uncounted commaOptions oldText = 0 ∧ uncounted commaOptions newText = 0) := by
  obtain ⟨executed, returns⟩ := @exists_of_toBool _ _ (prepareAndExecuteDiff commaOptions cLocale
    [97, 44, 98] [97, 32, 98] ⟨0, [], [], []⟩ initialPrinting) (by decide +kernel)
  exact ⟨executed, returns, statistics_addUp_iff (by decide) returns⟩

/-- A file that holds a comma only has a token and a total of zero words, so that one word fewer
than none is common when the comma was deleted. -/
theorem statistics_delimiter_first :
    ∃ executed, prepareAndExecuteDiff commaOptions cLocale [44] [] ⟨0, [], [], []⟩ initialPrinting =
        .ok executed ∧
      executed.state.oldFile.diffTokens.length = 1 ∧ executed.oldTotal = 0 ∧
      executed.state.statistics = ⟨0, 1, 0, 0⟩ ∧ ¬ AddUp executed := by
  have numbers : (prepareAndExecuteDiff commaOptions cLocale [44] [] ⟨0, [], [], []⟩
      initialPrinting).map (fun executed => (executed.state.oldFile.diffTokens.length,
        executed.oldTotal, executed.state.statistics)) = .ok (1, 0, ⟨0, 1, 0, 0⟩) := by
    decide +kernel
  cases returns : prepareAndExecuteDiff commaOptions cLocale [44] [] ⟨0, [], [], []⟩
      initialPrinting with
  | error failure =>
    rw [returns] at numbers
    contradiction
  | ok executed =>
    rw [returns] at numbers
    obtain ⟨tokens, total, statistics⟩ : executed.state.oldFile.diffTokens.length = 1 ∧
        executed.oldTotal = 0 ∧ executed.state.statistics = ⟨0, 1, 0, 0⟩ := by
      simpa [Except.map] using numbers
    refine ⟨executed, rfl, tokens, total, statistics, fun addUp => ?_⟩
    have wrong := addUp.oldTotal
    omega

/-- In any hunk, as many old words as new ones are left as common. The counters are of type `int`;
they only grow, and not over the words that were there to count. -/
theorem doDiff_balance {state final : Printing}
    (fitting : Fitting state.oldFile.diffTokens state.newFile.diffTokens state.baseHashMax)
    (table : state.hashtable = .empty)
    (nonneg : Statistics.Grows ⟨0, 0, 0, 0⟩ state.statistics)
    (few0 : state.statistics.oldWords + state.oldFile.diffTokens.length < 2 ^ 31)
    (few1 : state.statistics.newWords + state.newFile.diffTokens.length < 2 ^ 31)
    (returns : doDiff options locale state = .ok final) :
    final.statistics.oldWords - state.statistics.oldWords + state.newFile.diffTokens.length =
        final.statistics.newWords - state.statistics.newWords + state.oldFile.diffTokens.length ∧
      Statistics.Grows ⟨0, 0, 0, 0⟩ final.statistics ∧
      final.statistics.oldWords < 2 ^ 31 ∧ final.statistics.newWords < 2 ^ 31 := by
  obtain ⟨p, q, ⟨le, lengths, -⟩, -, -, -, -, -, -, grows, steps, oldTally, newTally⟩ :=
    (@doDiff_steered options locale _ _ False (fun _ => True) _ fitting ⟨rfl, rfl⟩ table
      False.elim (fun _ _ => trivial) (Or.inl trivial)).of_ok returns
  refine ⟨by omega, ⟨nonneg.added.trans grows.added, nonneg.deleted.trans grows.deleted,
    nonneg.oldChanged.trans grows.oldChanged, nonneg.newChanged.trans grows.newChanged⟩, ?_, ?_⟩
  · omega
  · omega

theorem doDiff_balance_numbers :
    ∃ final, doDiff defaultOptions cLocale (numbersOnly [0, 1] [2] 3) = .ok final ∧
      final.statistics.oldWords - 0 + 1 = final.statistics.newWords - 0 + 2 ∧
      Statistics.Grows ⟨0, 0, 0, 0⟩ final.statistics ∧
      final.statistics.oldWords < 2 ^ 31 ∧ final.statistics.newWords < 2 ^ 31 := by
  obtain ⟨final, returns⟩ := @exists_of_toBool _ _
    (doDiff defaultOptions cLocale (numbersOnly [0, 1] [2] 3)) (by decide +kernel)
  exact ⟨final, returns, doDiff_balance ⟨by decide, by decide, by decide, by decide⟩ rfl
    ⟨le_rfl, le_rfl, le_rfl, le_rfl⟩ (by decide) (by decide) returns⟩

end Statistics

/-! ### The percentages -/

section Percentages

variable {total counted changed : Int}

/-- The counts of a file with at least one word, whose total is an `int`. -/
structure Admitted (total counted changed : Int) : Prop where
  total_pos : 1 ≤ total
  total_le : total ≤ 2147483647
  counted_nonneg : 0 ≤ counted
  changed_nonneg : 0 ≤ changed
  sum_le : counted + changed ≤ total

/-- The percentage is the exact one, rounded down. -/
structure Share.Exact (total count : Int) (share : Share) : Prop where
  isCount : share.count = count
  percentage : share.percentage = Int.fdiv (100 * count) total
  nonneg : 0 ≤ share.percentage
  le : share.percentage ≤ 100

/-- A line that says the truth about the counts. -/
def StatisticsLine.Exact (total counted changed : Int) : StatisticsLine → Prop
  | .noWords => False
  | .words total' common counted' changed' =>
    total' = total ∧ common.Exact total (total - counted - changed) ∧
      counted'.Exact total counted ∧ changed'.Exact total changed ∧
      common.percentage + counted'.percentage + changed'.percentage ≤ 100

/-- No count is so large that a hundred times as much is no `int` any more. -/
def Moderate (total counted changed : Int) : Prop :=
  total - counted - changed ≤ 21474836 ∧ counted ≤ 21474836 ∧ changed ≤ 21474836

theorem asInt_eq_ok {value : Int} (low : -2147483648 ≤ value) (high : value ≤ 2147483647) :
    asInt value = .ok value := if_pos ⟨low, high⟩

/-- The division rounds down, since the count is not negative. -/
theorem share_exact {count : Int} (pos : 1 ≤ total) (nonneg : 0 ≤ count) (le : count ≤ total)
    (moderate : count ≤ 21474836) :
    ∃ result, share total count = .ok result ∧ result.Exact total count := by
  have quotient : (count * 100).tdiv total = count * 100 / total :=
    Int.tdiv_eq_ediv_of_nonneg (by omega)
  have low : 0 ≤ count * 100 / total := Int.ediv_nonneg (by omega) (by omega)
  have high : count * 100 / total ≤ 100 := Int.ediv_le_of_le_mul (by omega) (by omega)
  refine ⟨⟨count, count * 100 / total⟩, ?_, rfl, ?_, low, high⟩
  · rw [share, asInt_eq_ok (by omega) (by omega), ok_bind, quotient,
      asInt_eq_ok (by omega) (by omega)]
    rfl
  · rw [Int.fdiv_eq_ediv_of_nonneg _ (by omega), Int.mul_comm]

theorem Share.Exact.mul_le {count : Int} {share : Share} (isExact : share.Exact total count)
    (pos : 1 ≤ total) : share.percentage * total ≤ 100 * count := by
  rw [isExact.percentage, Int.fdiv_eq_ediv_of_nonneg _ (by omega)]
  exact Int.ediv_mul_le _ (by omega)

/-- A hundred times too large a count overflows. -/
theorem moderate_of_share {count : Int} {result : Share}
    (returns : share total count = .ok result) : count ≤ 21474836 := by
  obtain ⟨product, inRange, -⟩ := bind_eq_ok.mp returns
  by_contra large
  rw [asInt, if_neg (by omega)] at inRange
  contradiction

/-- The first part of a line: the words in common are not more than the total. -/
theorem statisticsLine_eq (admitted : Admitted total counted changed) :
    statisticsLine total counted changed = (do
      let common ← share total (total - counted - changed)
      let counted ← share total counted
      let changed ← share total changed
      .ok (.words total common counted changed)) := by
  obtain ⟨pos, le, countedNonneg, changedNonneg, sumLe⟩ := admitted
  rw [statisticsLine, asInt_eq_ok (by omega) (by omega), ok_bind,
    asInt_eq_ok (by omega) (by omega), ok_bind, if_neg (by omega)]

/-- A line is printed and says the truth exactly if the counts are moderate. -/
theorem statisticsLine_exact (admitted : Admitted total counted changed) :
    (∃ line, statisticsLine total counted changed = .ok line ∧ line.Exact total counted changed) ↔
      Moderate total counted changed := by
  rw [statisticsLine_eq admitted]
  obtain ⟨pos, -, countedNonneg, changedNonneg, sumLe⟩ := admitted
  refine ⟨fun ⟨line, returns, _⟩ => ?_, fun ⟨commonLe, countedLe, changedLe⟩ => ?_⟩
  · obtain ⟨common, isCommon, returns⟩ := bind_eq_ok.mp returns
    obtain ⟨counted', isCounted, returns⟩ := bind_eq_ok.mp returns
    obtain ⟨changed', isChanged, -⟩ := bind_eq_ok.mp returns
    exact ⟨moderate_of_share isCommon, moderate_of_share isCounted, moderate_of_share isChanged⟩
  · obtain ⟨common, isCommon, commonExact⟩ := share_exact pos
      (by omega : 0 ≤ total - counted - changed) (by omega) commonLe
    obtain ⟨counted', isCounted, countedExact⟩ := share_exact pos countedNonneg (by omega) countedLe
    obtain ⟨changed', isChanged, changedExact⟩ := share_exact pos changedNonneg (by omega) changedLe
    refine ⟨.words total common counted' changed', ?_, rfl, commonExact, countedExact,
      changedExact, ?_⟩
    · rw [isCommon, ok_bind, isCounted, ok_bind, isChanged, ok_bind]
    · have whole : (common.percentage + counted'.percentage + changed'.percentage) * total ≤
          100 * total := by
        rw [add_mul, add_mul]
        have commonLe := commonExact.mul_le pos
        have countedLe := countedExact.mul_le pos
        have changedLe := changedExact.mul_le pos
        omega
      exact le_of_mul_le_mul_right whole (by omega)

/-- The statistics are printed and say the truth exactly if the counts of both files are
moderate. -/
theorem printStatistics_exact_iff {statistics : Statistics} {oldTotal newTotal : Int}
    (oldAdmitted : Admitted oldTotal statistics.deleted statistics.oldChanged)
    (newAdmitted : Admitted newTotal statistics.added statistics.newChanged) :
    (∃ old new, oldLine statistics oldTotal = .ok old ∧ newLine statistics newTotal = .ok new ∧
      printStatistics statistics oldTotal newTotal =
        .ok (old.text "old" "deleted" ++ new.text "new" "inserted") ∧
      old.Exact oldTotal statistics.deleted statistics.oldChanged ∧
      new.Exact newTotal statistics.added statistics.newChanged) ↔
    Moderate oldTotal statistics.deleted statistics.oldChanged ∧
      Moderate newTotal statistics.added statistics.newChanged := by
  rw [← statisticsLine_exact oldAdmitted, ← statisticsLine_exact newAdmitted]
  constructor
  · rintro ⟨old, new, isOld, isNew, -, oldExact, newExact⟩
    exact ⟨⟨old, isOld, oldExact⟩, new, isNew, newExact⟩
  · rintro ⟨⟨old, isOld, oldExact⟩, new, isNew, newExact⟩
    refine ⟨old, new, isOld, isNew, ?_, oldExact, newExact⟩
    rw [printStatistics, oldLine, isOld, ok_bind, newLine, isNew, ok_bind]

theorem printStatistics_exact_iff_ten :
    (∃ old new, oldLine ⟨4, 3, 1, 2⟩ 10 = .ok old ∧ newLine ⟨4, 3, 1, 2⟩ 12 = .ok new ∧
      printStatistics ⟨4, 3, 1, 2⟩ 10 12 =
        .ok (old.text "old" "deleted" ++ new.text "new" "inserted") ∧
      old.Exact 10 3 1 ∧ new.Exact 12 4 2) ↔ Moderate 10 3 1 ∧ Moderate 12 4 2 :=
  @printStatistics_exact_iff ⟨4, 3, 1, 2⟩ 10 12 (by constructor <;> decide)
    (by constructor <;> decide)

/-- Two equal files of 21474837 words: a hundred times the words in common is no `int`. If the
product is reduced to 32 bits, then the percentage is negative. -/
theorem printStatistics_overflow :
    Admitted 21474837 0 0 ∧ printStatistics ⟨0, 0, 0, 0⟩ 21474837 21474837 = .error .undefined ∧
      (Int.bmod (21474837 * 100) (2 ^ 32)).tdiv 21474837 = -99 ∧
      Int.fdiv (100 * 21474837) 21474837 = 100 :=
  ⟨by constructor <;> decide, by decide +kernel, by decide +kernel, by decide +kernel⟩

end Percentages

end Dwdiff
