/-
This file is about what `readFile` makes of a file in single-byte mode: a sequence
of words, each a whitespace run followed by a token, and a last run. The state
machine writes the two files in different orders, so the tokens and the runs that
have been stored are followed separately, and are only tied together, word by word,
in the invariant of the loop.
-/

import Dwdiff.Frame
import Mathlib.Data.List.Chain

namespace Dwdiff

open Interning

variable {word : Word}

/-! ### Words -/

/-- A word: a whitespace run and the token after it. -/
structure Word where
  run : List UInt8
  token : List UInt8
  deriving DecidableEq, Repr

/-- The text of a sequence of words. -/
def textOf (words : List Word) : List UInt8 :=
  words.flatMap fun word => word.run ++ word.token

@[simp] theorem textOf_nil : textOf [] = [] := rfl

@[simp] theorem textOf_append (first second : List Word) :
    textOf (first ++ second) = textOf first ++ textOf second := List.flatMap_append

@[simp] theorem textOf_singleton (word : Word) : textOf [word] = word.run ++ word.token := by
  simp [textOf]

@[simp] theorem textOf_cons (word : Word) (words : List Word) :
    textOf (word :: words) = word.run ++ word.token ++ textOf words := by
  simp [textOf]

/-- `classifyChar`, for a byte. -/
def byteCategory (options : Options) (byte : UInt8) : Category :=
  if testBit options.delimiters byte then .delimiter
  else if testBit options.whitespace byte then .whitespace
  else .other

/-- What the words of a file are compared by. -/
def comparisonKey (options : Options) (locale : Locale) (token : List UInt8) : List UInt8 :=
  token.map fun byte => if options.ignoreCase then locale.toLower byte else byte

section Words

variable (options : Options)

/-- A token that consists of one delimiter. -/
def IsDelimiter (token : List UInt8) : Prop :=
  ∃ byte, token = [byte] ∧ byteCategory options byte = .delimiter

/-- A token without delimiters and whitespace. -/
def IsPlain (token : List UInt8) : Prop :=
  token ≠ [] ∧ ∀ byte ∈ token, byteCategory options byte = .other

/-- A run of nothing but whitespace. -/
def IsRun (run : List UInt8) : Prop :=
  ∀ byte ∈ run, byteCategory options byte = .whitespace

/-- A maximal run of bytes that are neither delimiter nor whitespace, between the text before
it and the text after it. -/
def IsMaximal (before token after : List UInt8) : Prop :=
  IsPlain options token ∧
    (∀ byte ∈ before.getLast?, byteCategory options byte ≠ .other) ∧
    ∀ byte ∈ after.head?, byteCategory options byte ≠ .other

/-- The words and the last run of a text. -/
structure Splits (input : List UInt8) (words : List Word) (last : List UInt8) : Prop where
  text : textOf words ++ last = input
  runs : (∀ word ∈ words, IsRun options word.run) ∧ IsRun options last
  tokens : ∀ before word after, words = before ++ word :: after →
    IsDelimiter options word.token ∨
      IsMaximal options (textOf before ++ word.run) word.token (textOf after ++ last)

/-- A word as the loop makes it. -/
structure Word.Good (word : Word) : Prop where
  run : IsRun options word.run
  token : IsDelimiter options word.token ∨ IsPlain options word.token

/-- Two plain tokens are not next to each other. -/
def Apart (first second : Word) : Prop :=
  IsPlain options first.token → IsPlain options second.token → second.run ≠ []

/-- Words as the loop makes them. -/
structure GoodWords (words : List Word) : Prop where
  good : ∀ word ∈ words, word.Good options
  apart : words.IsChain (Apart options)

end Words

variable {options : Options} {locale : Locale}

theorem not_plain_of_delimiter {token : List UInt8} (delimiter : IsDelimiter options token) :
    ¬ IsPlain options token := by
  rintro ⟨-, plain⟩
  obtain ⟨byte, rfl, isDelimiter⟩ := delimiter
  have isOther := plain byte (List.mem_singleton.mpr rfl)
  rw [isDelimiter] at isOther
  contradiction

theorem Word.Good.nonempty (good : word.Good options) : word.token ≠ [] := by
  rcases good.token with ⟨byte, isByte, -⟩ | plain
  · rw [isByte]
    exact List.cons_ne_nil byte []
  · exact plain.1

theorem GoodWords.nil : GoodWords options [] :=
  ⟨fun _ absent => absurd absent List.not_mem_nil, List.IsChain.nil⟩

/-- A word that ends in a delimiter, or starts with whitespace, can follow any word. -/
theorem GoodWords.snoc {words : List Word} (goodWords : GoodWords options words)
    (good : word.Good options) (apart : ∀ before ∈ words.getLast?, Apart options before word) :
    GoodWords options (words ++ [word]) where
  good := fun other isOne => by
    rcases List.mem_append.mp isOne with isOld | isNew
    · exact goodWords.good other isOld
    · rw [List.mem_singleton.mp isNew]
      exact good
  apart := List.isChain_append.mpr ⟨goodWords.apart, List.isChain_singleton word,
    fun before isLast first isFirst => by
      rw [List.head?_singleton, Option.mem_some_iff] at isFirst
      exact isFirst ▸ apart before isLast⟩

/-- The byte before a plain token is not part of a plain token. -/
theorem GoodWords.before {before : List Word} {after : List Word}
    (goodWords : GoodWords options (before ++ word :: after)) (plain : IsPlain options word.token)
    {byte : UInt8} (isLast : byte ∈ (textOf before ++ word.run).getLast?) :
    byteCategory options byte ≠ .other := by
  rcases List.eq_nil_or_concat' word.run with empty | ⟨run, final, isRun⟩
  · rw [empty, List.append_nil] at isLast
    rcases List.eq_nil_or_concat' before with rfl | ⟨front, previous, rfl⟩
    · exact absurd isLast (by simp)
    · -- The word before ends right here, so it is a delimiter.
      have apart : Apart options previous word := by
        have chain := goodWords.apart
        rw [List.append_assoc] at chain
        exact (List.isChain_cons_cons.mp (List.isChain_append.mp chain).2.1).1
      have good := goodWords.good previous (by simp)
      rcases good.token with ⟨delimiter, isToken, isDelimiter⟩ | isPlain
      · rw [textOf_append, textOf_singleton, isToken, ← List.append_assoc,
          List.getLast?_concat, Option.mem_some_iff] at isLast
        rw [← isLast, isDelimiter]
        decide
      · exact absurd empty (apart isPlain plain)
  · rw [isRun, ← List.append_assoc, List.getLast?_concat, Option.mem_some_iff] at isLast
    have isWhitespace := (goodWords.good word (by simp)).run final (by simp [isRun])
    rw [← isLast, isWhitespace]
    decide

/-- The byte after a plain token is not part of a plain token. -/
theorem GoodWords.after {before : List Word} {word : Word} {after : List Word}
    (goodWords : GoodWords options (before ++ word :: after)) (plain : IsPlain options word.token)
    {last : List UInt8} (isRun : IsRun options last) {byte : UInt8}
    (isFirst : byte ∈ (textOf after ++ last).head?) : byteCategory options byte ≠ .other := by
  have whitespace : ∀ {run : List UInt8}, IsRun options run → ∀ {byte}, byte ∈ run →
      byteCategory options byte ≠ .other := fun isRun byte isOne => by
    rw [isRun byte isOne]
    decide
  cases after with
  | nil => exact whitespace isRun (List.mem_of_mem_head? isFirst)
  | cons next after =>
    have good := goodWords.good next (by simp)
    have apart : Apart options word next :=
      (List.isChain_cons_cons.mp (List.isChain_append.mp goodWords.apart).2.1).1
    rw [textOf_cons] at isFirst
    cases onset : next.run with
    | cons head run =>
      rw [onset] at isFirst
      simp only [List.cons_append, List.head?_cons, Option.mem_some_iff] at isFirst
      exact whitespace good.run (by simp [onset, isFirst])
    | nil =>
      rcases good.token with ⟨delimiter, isToken, isDelimiter⟩ | isPlain
      · rw [onset, isToken] at isFirst
        simp only [List.nil_append, List.cons_append, List.head?_cons,
          Option.mem_some_iff] at isFirst
        rw [← isFirst, isDelimiter]
        decide
      · exact absurd onset (apart plain isPlain)

theorem GoodWords.splits {words : List Word} {last : List UInt8}
    (goodWords : GoodWords options words) (isRun : IsRun options last) :
    Splits options (textOf words ++ last) words last where
  text := rfl
  runs := ⟨fun word isOne => (goodWords.good word isOne).run, isRun⟩
  tokens := fun before word after isSplit => by
    subst isSplit
    rcases (goodWords.good word (by simp)).token with delimiter | plain
    · exact Or.inl delimiter
    · exact Or.inr ⟨plain, fun byte => goodWords.before plain, fun byte =>
        goodWords.after plain isRun⟩

/-! ### What has been written -/

/-- What the globals and the temporary files hold: the finished tokens and runs, the run in
the whitespace buffer, and the token that is being written. The table held the `known` strings
before this file. -/
structure Stored (options : Options) (locale : Locale) (known : List (List UInt8))
    (input : Stream) (char : UInt8) (tokens runs : List (List UInt8)) (pending token : List UInt8)
    (reading : Reading) : Prop where
  atInput : reading.input = input
  atChar : reading.charData.singleChar = char
  tokenFile : reading.tokens = tokens.flatMap escaped ++ token.flatMap escapeByte
  whitespace : reading.whitespace = runs.flatMap escaped
  whitespaceBuffer : reading.whitespaceBuffer = pending.flatMap escapeByte
  currentWord : reading.currentWord = comparisonKey options locale token
  diffTokens : reading.diffTokens = (tokens.map (comparisonKey options locale)).map
    (internAll known (tokens.map (comparisonKey options locale))).idxOf
  hashtable : Interns reading.hashtable
    (internAll known (tokens.map (comparisonKey options locale)))

section Operations

variable {known : List (List UInt8)} {input : Stream} {char : UInt8}
  {tokens runs : List (List UInt8)} {pending token : List UInt8} {reading : Reading}

variable (stored : Stored options locale known input char tokens runs pending token reading)

include stored

theorem Stored.writeEndOfToken (room : known.length + tokens.length < valueMax) :
    ∃ after, Dwdiff.writeEndOfToken reading = .ok after ∧
      Stored options locale known input char (tokens ++ [token]) runs pending [] after := by
  have few := internAll_length_le known (tokens.map (comparisonKey options locale))
  rw [List.length_map] at few
  obtain ⟨table, value, interns⟩ :=
    getValue_eq stored.hashtable (comparisonKey options locale token) (by omega)
  have grown : internAll known ((tokens ++ [token]).map (comparisonKey options locale)) =
      intern (internAll known (tokens.map (comparisonKey options locale)))
        (comparisonKey options locale token) := by
    rw [List.map_append, internAll_append]
    rfl
  rw [Dwdiff.writeEndOfToken, stored.currentWord, value, ok_bind]
  refine ⟨_, rfl, stored.atInput, stored.atChar, ?_, stored.whitespace, stored.whitespaceBuffer,
    rfl, ?_, ?_⟩
  · simp [stored.tokenFile, escaped]
  · -- The numbers given before stay what they are.
    have stable : ∀ key ∈ tokens.map (comparisonKey options locale),
        (internAll known (tokens.map (comparisonKey options locale))).idxOf key =
          (intern (internAll known (tokens.map (comparisonKey options locale)))
            (comparisonKey options locale token)).idxOf key := fun key isOne =>
      (idxOf_internAll (mem_internAll isOne known) [comparisonKey options locale token]).symm
    rw [grown, stored.diffTokens, List.map_append, List.map_append, List.map_congr_left stable]
    rfl
  · rw [grown]
    exact interns

theorem Stored.writeTokenChar :
    ∃ after, (dispatchSC options locale).writeTokenChar reading = .ok after ∧
      Stored options locale known input char tokens runs pending (token ++ [char]) after := by
  refine ⟨_, rfl, stored.atInput, stored.atChar, ?_, stored.whitespace, stored.whitespaceBuffer, ?_,
    stored.diffTokens, stored.hashtable⟩
  · simp [stored.tokenFile, stored.atChar]
  · simp [stored.currentWord, stored.atChar, comparisonKey]

theorem Stored.writeWhitespaceChar :
    ∃ after, (dispatchSC options locale).writeWhitespaceChar reading = .ok after ∧
      Stored options locale known input char tokens runs (pending ++ [char]) token after := by
  refine ⟨_, rfl, stored.atInput, stored.atChar, stored.tokenFile, stored.whitespace, ?_,
    stored.currentWord, stored.diffTokens, stored.hashtable⟩
  simp [stored.whitespaceBuffer, stored.atChar]

/-- Reading a character leaves what has been stored alone. -/
theorem Stored.read (input' : Stream) (charData : CharData) :
    Stored options locale known input' charData.singleChar tokens runs pending token
      { reading with input := input', charData := charData } :=
  ⟨rfl, rfl, stored.tokenFile, stored.whitespace, stored.whitespaceBuffer, stored.currentWord,
    stored.diffTokens, stored.hashtable⟩

end Operations

theorem classifyChar_singleByte (options : Options) (locale : Locale) (charData : CharData) :
    classifyChar (dispatchSC options locale) charData =
      .ok (byteCategory options charData.singleChar) := by
  unfold classifyChar byteCategory
  show (do if ← isDelimiterSC options charData then _ else _) = _
  rw [isDelimiterSC, ok_bind]
  by_cases delimiter : testBit options.delimiters charData.singleChar = true
  · rw [if_pos delimiter, if_pos delimiter]
  · rw [if_neg delimiter, if_neg delimiter]
    show (do if ← isWhitespaceSC options charData then _ else _) = _
    rw [isWhitespaceSC, ok_bind]
    by_cases whitespace : testBit options.whitespace charData.singleChar = true
    · rw [if_pos whitespace, if_pos whitespace]
    · rw [if_neg whitespace, if_neg whitespace]

/-! ### The loop -/

section Bytes

variable {char : UInt8}

theorem isRun_snoc {run : List UInt8} (isRun : IsRun options run)
    (whitespace : byteCategory options char = .whitespace) : IsRun options (run ++ [char]) := by
  intro byte isOne
  rcases List.mem_append.mp isOne with isOld | isNew
  · exact isRun byte isOld
  · rw [List.mem_singleton.mp isNew]
    exact whitespace

theorem delimiter_good {run : List UInt8} (isRun : IsRun options run)
    (delimiter : byteCategory options char = .delimiter) : Word.Good options ⟨run, [char]⟩ :=
  ⟨isRun, Or.inl ⟨char, rfl, delimiter⟩⟩

theorem delimiter_apart {run : List UInt8} (delimiter : byteCategory options char = .delimiter)
    (before : Word) : Apart options before ⟨run, [char]⟩ :=
  fun _ plain => absurd plain (not_plain_of_delimiter ⟨char, rfl, delimiter⟩)

theorem plain_single (other : byteCategory options char = .other) : IsPlain options [char] :=
  ⟨List.cons_ne_nil char [], fun byte isOne => by rw [List.mem_singleton.mp isOne, other]⟩

theorem isPlain_snoc {token : List UInt8} (plain : IsPlain options token)
    (other : byteCategory options char = .other) : IsPlain options (token ++ [char]) := by
  refine ⟨by simp, fun byte isOne => ?_⟩
  rcases List.mem_append.mp isOne with isOld | isNew
  · exact plain.2 byte isOld
  · rw [List.mem_singleton.mp isNew, other]

end Bytes

/-- The rule for the loop of `readFile`: what is consumed byte by byte, up to a limit, is consumed
by the whole loop. The induction is on what is still to be read. -/
theorem readLoop_rule {invariant : Stream → UInt8 → MatchState → List UInt8 → Reading → Prop}
    {limit : Nat}
    (atInput : ∀ {input char state consumed reading},
      invariant input char state consumed reading → reading.input = input)
    (read : ∀ {input char state consumed reading}, invariant input char state consumed reading →
      ∀ (input' : Stream) (charData : CharData), invariant input' charData.singleChar state consumed
        { reading with input := input', charData := charData })
    (step : ∀ {input char state consumed reading}, invariant input char state consumed reading →
      consumed.length < limit → ∀ wordCount, ∃ state' wordCount' reading',
        readStep options (dispatchSC options locale) (byteCategory options char) state wordCount
          reading = .ok (state', wordCount', reading') ∧
        invariant input char state' (consumed ++ [char]) reading')
    {rest : List UInt8} :
    ∀ {fuel : Nat} {input : Stream} {char : UInt8} {state : MatchState} {consumed : List UInt8}
      {reading : Reading} (wordCount : Nat), input.remaining = rest → rest.length < fuel →
      consumed.length + rest.length ≤ limit → invariant input char state consumed reading →
      ∃ final last state' wordCount' reading',
        readLoop options (dispatchSC options locale) fuel state wordCount reading =
          .ok (state', wordCount', reading') ∧
        invariant final last state' (consumed ++ rest) reading' := by
  induction rest with
  | nil =>
    intro fuel input char state consumed reading wordCount ends enough _ holds
    obtain ⟨fuel, rfl⟩ := Nat.exists_eq_succ_of_ne_zero (Nat.ne_zero_of_lt enough)
    have reads : (dispatchSC options locale).getNextChar reading =
        .ok (false, { reading with input := input.getChar.2 }) := by
      show getNextCharSC reading = _
      unfold getNextCharSC Stream.getChar
      rw [atInput holds, ends]
      cases input.kind <;> rfl
    rw [List.append_nil, readLoop, reads]
    exact ⟨_, _, state, wordCount, _, rfl, read holds input.getChar.2 reading.charData⟩
  | cons byte rest inductionHypothesis =>
    intro fuel input char state consumed reading wordCount starts enough room holds
    obtain ⟨fuel, rfl⟩ := Nat.exists_eq_succ_of_ne_zero (Nat.ne_zero_of_lt enough)
    rw [List.length_cons] at room enough
    have reads : (dispatchSC options locale).getNextChar reading =
        .ok (true, { reading with
          input := input.advance [byte] rest
          charData := { reading.charData with singleChar := byte } }) := by
      show getNextCharSC reading = _
      rw [getNextCharSC, atInput holds, getChar_cons input byte rest starts]
    have holdsRead := read holds (input.advance [byte] rest)
      { reading.charData with singleChar := byte }
    obtain ⟨next, count, after, steps, holdsAfter⟩ := step holdsRead (by omega) wordCount
    have answer := inductionHypothesis count (advance_remaining input [byte] rest)
      (Nat.lt_of_succ_lt_succ enough) (by rw [List.length_append, List.length_singleton]; omega)
      holdsAfter
    rw [List.append_assoc, List.singleton_append] at answer
    rw [readLoop, reads, ok_bind]
    simp only [if_true, classifyChar_singleByte, steps, ok_bind]
    exact answer

end Dwdiff
