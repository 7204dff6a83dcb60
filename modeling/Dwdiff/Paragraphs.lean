/-
This file proves what `readFile` leaves behind in single-byte mode. In paragraph
mode it puts an empty token between two paragraphs and splits the whitespace around
it. A run that is followed by a word is split before the word is written, but a run
that is followed by a delimiter only after the delimiter was written. The empty
token and the second half of the whitespace then stand behind the delimiter.
Without paragraphs no run is split, and the words are those of the text.
-/

import Dwdiff.Tokenizer

namespace Dwdiff

open Interning

variable {options : Options} {locale : Locale} {known : List (List UInt8)} {input : Stream}
  {pending : List UInt8} {reading : Reading} {tokenWritten : Bool} {words : List Word}
  {before after first second : List UInt8} {word : Word}

/-! ### Where a run is split -/

/-- The two halves of a run at a paragraph. In front of all tokens one newline makes a
paragraph, which starts with it; elsewhere it takes two, and the first ends the paragraph. -/
def splitParagraph (tokenWritten : Bool) (run : List UInt8) :
    Option (List UInt8 × List UInt8) :=
  match run.findIdx? (· == 10) with
  | none => none
  | some first =>
    if !tokenWritten then some (run.take first, run.drop first)
    else if (run.drop (first + 1)).contains 10 then
      some (run.take (first + 1), run.drop (first + 1))
    else none

theorem findIdx_append (absent : 10 ∉ before) :
    (before ++ 10 :: after).findIdx? (· == 10) = some before.length := by
  rw [List.findIdx?_append, List.findIdx?_eq_none_iff.mpr fun byte isOne => by
    simpa using fun (isNewline : byte = 10) => absent (isNewline ▸ isOne), List.findIdx?_cons]
  simp

/-- A run has no newline, or a first one. -/
theorem newline_cases (run : List UInt8) :
    10 ∉ run ∨ ∃ before after, run = before ++ 10 :: after ∧ 10 ∉ before := by
  by_cases present : (10 : UInt8) ∈ run
  · obtain ⟨before, after, isRun, absent⟩ := List.eq_append_cons_of_mem present
    exact Or.inr ⟨before, after, isRun, absent⟩
  · exact Or.inl present

theorem splitParagraph_none {run : List UInt8} (absent : 10 ∉ run) (tokenWritten : Bool) :
    splitParagraph tokenWritten run = none := by
  rw [splitParagraph, List.findIdx?_eq_none_iff.mpr fun byte isOne => by
    simpa using fun (isNewline : byte = 10) => absent (isNewline ▸ isOne)]

theorem drop_newline (before after : List UInt8) :
    (before ++ 10 :: after).drop (before.length + 1) = after := by
  rw [← List.singleton_append, ← List.append_assoc]
  exact List.drop_left' (by simp)

theorem splitParagraph_append (absent : 10 ∉ before) (tokenWritten : Bool) :
    splitParagraph tokenWritten (before ++ 10 :: after) =
      if !tokenWritten then some (before, 10 :: after)
      else if after.contains 10 then some (before ++ [10], after)
      else none := by
  have taken : (before ++ 10 :: after).take (before.length + 1) = before ++ [10] := by
    rw [← List.singleton_append, ← List.append_assoc]
    exact List.take_left' (by simp)
  rw [splitParagraph, findIdx_append absent]
  dsimp only
  rw [drop_newline, taken, List.take_left, List.drop_left]

/-- The halves are those of the run, and the second one holds a newline. -/
theorem splitParagraph_some {run : List UInt8}
    (isSplit : splitParagraph tokenWritten run = some (first, second)) :
    first ++ second = run ∧ 10 ∈ second := by
  rcases newline_cases run with absent | ⟨before, after, rfl, absent⟩
  · rw [splitParagraph_none absent] at isSplit
    contradiction
  · rw [splitParagraph_append absent] at isSplit
    split at isSplit
    · obtain ⟨rfl, rfl⟩ := Prod.mk.inj (Option.some.inj isSplit)
      exact ⟨rfl, List.mem_cons_self⟩
    · split at isSplit
      · next again =>
        obtain ⟨rfl, rfl⟩ := Prod.mk.inj (Option.some.inj isSplit)
        exact ⟨by simp, by simpa using again⟩
      · contradiction

/-- Behind a token it takes two newlines. -/
theorem splitParagraph_isSome (run : List UInt8) :
    (splitParagraph true run).isSome = decide (2 ≤ run.count 10) := by
  rcases newline_cases run with absent | ⟨before, after, rfl, absent⟩
  · rw [splitParagraph_none absent, List.count_eq_zero.mpr absent]
    rfl
  · have number : (before ++ 10 :: after).count 10 = after.count 10 + 1 := by
      rw [List.count_append, List.count_eq_zero.mpr absent, List.count_cons_self, Nat.zero_add]
    rw [splitParagraph_append absent, number]
    by_cases again : (10 : UInt8) ∈ after
    · have positive := List.count_pos_iff.mpr again
      rw [Bool.not_true, if_neg Bool.false_ne_true, if_pos (by simpa using again)]
      exact (decide_eq_true (by omega)).symm
    · simp [again, List.count_eq_zero.mpr again]

/-- The two halves of a run that is split. -/
def splitRun (options : Options) (tokenWritten : Bool) (run : List UInt8) :
    Option (List UInt8 × List UInt8) :=
  if options.paraDelim then splitParagraph tokenWritten run else none

theorem splitRun_some {run : List UInt8}
    (isSplit : splitRun options tokenWritten run = some (first, second)) :
    first ++ second = run ∧ 10 ∈ second ∧ options.paraDelim = true := by
  unfold splitRun at isSplit
  split at isSplit
  · next paragraphs =>
    obtain ⟨joined, newline⟩ := splitParagraph_some isSplit
    exact ⟨joined, newline, paragraphs⟩
  · contradiction

theorem splitRun_isSome (options : Options) (run : List UInt8) :
    (splitRun options true run).isSome = (options.paraDelim && decide (2 ≤ run.count 10)) := by
  unfold splitRun
  cases options.paraDelim with
  | true => exact splitParagraph_isSome run
  | false => rfl

/-! ### Splitting the whitespace buffer -/

theorem newline_not_mem_escaped {run : List UInt8} (absent : 10 ∉ run) :
    10 ∉ run.flatMap escapeByte := by
  intro present
  obtain ⟨byte, isOne, inside⟩ := List.mem_flatMap.mp present
  unfold escapeByte at inside
  split at inside
  · next special =>
    rcases special with rfl | rfl <;> simp at inside
  · rw [List.mem_singleton.mp inside] at absent
    exact absent isOne

theorem findNewlines_append (absent : 10 ∉ before) :
    findNewlines (before ++ 10 :: after) = (some before.length, after.contains 10) := by
  rw [findNewlines, findIdx_append absent]
  dsimp only
  rw [drop_newline]

theorem findNewlines_none {buffer : List UInt8} (absent : 10 ∉ buffer) :
    findNewlines buffer = (none, false) := by
  rw [findNewlines, List.findIdx?_eq_none_iff.mpr fun byte isOne => by
    simpa using fun (isNewline : byte = 10) => absent (isNewline ▸ isOne)]

/-- The buffer holds the run with its escapes, which contain no newline. -/
theorem findNewlines_escaped (absent : 10 ∉ before) :
    findNewlines ((before ++ 10 :: after).flatMap escapeByte) =
      (some (before.flatMap escapeByte).length, after.contains 10) := by
  have bytes : (before ++ 10 :: after).flatMap escapeByte =
      before.flatMap escapeByte ++ 10 :: after.flatMap escapeByte := by
    rw [List.flatMap_append, List.flatMap_cons]
    rfl
  rw [bytes, findNewlines_append (newline_not_mem_escaped absent)]
  by_cases again : (10 : UInt8) ∈ after
  · have present : (10 : UInt8) ∈ after.flatMap escapeByte :=
      List.mem_flatMap.mpr ⟨10, again, by decide⟩
    simp [again, present]
  · simp [again, newline_not_mem_escaped again]

/-- The end of a run that is not split. -/
def endWhole (table : DispatchTable) (reading : Reading) : Except Failure Reading := do
  let reading ← table.writeWhitespaceDelimiter
    { reading with whitespace := reading.whitespace ++ reading.whitespaceBuffer }
  .ok { reading with whitespaceBuffer := [] }

/-- The end of a run that is split in front of the byte at `index`. -/
def endSplit (table : DispatchTable) (index : Nat) (reading : Reading) :
    Except Failure Reading := do
  let buffer := reading.whitespaceBuffer
  let reading ← table.writeWhitespaceDelimiter
    { reading with whitespace := reading.whitespace ++ buffer.take index }
  let reading ← table.writeWhitespaceDelimiter
    { reading with whitespace := reading.whitespace ++ buffer.drop index }
  let reading ← writeEndOfToken reading
  .ok { reading with whitespaceBuffer := [] }

/-- Where the buffer is split. -/
def splitIndex (options : Options) (reading : Reading) : Option Nat :=
  if options.paraDelim then
    match findNewlines reading.whitespaceBuffer with
    | (some first, second) =>
      if !reading.tokenWritten then some first else if second then some (first + 1) else none
    | (none, _) => none
  else none

theorem handleWhitespaceEnd_eq (options : Options) (table : DispatchTable) (reading : Reading) :
    handleWhitespaceEnd options table reading =
      match splitIndex options reading with
      | none => endWhole table reading
      | some index => endSplit table index reading := by
  unfold handleWhitespaceEnd splitIndex
  cases options.paraDelim with
  | false => rfl
  | true =>
    dsimp only
    rw [if_pos rfl, if_pos rfl]
    rcases findNewlines reading.whitespaceBuffer with ⟨_ | first, second⟩
    · rfl
    · dsimp only
      split
      · rfl
      · split <;> rfl

section Operations

variable {char : UInt8} {tokens runs : List (List UInt8)} {token : List UInt8}

/-- What the files hold, and whether a token was written. -/
structure Kept (options : Options) (locale : Locale) (known : List (List UInt8))
    (input : Stream) (char : UInt8) (tokenWritten : Bool) (tokens runs : List (List UInt8))
    (pending token : List UInt8) (reading : Reading) : Prop where
  stored : Stored options locale known input char tokens runs pending token reading
  written : reading.tokenWritten = tokenWritten

variable
  (kept : Kept options locale known input char tokenWritten tokens runs pending token reading)

include kept

theorem Kept.writeEndOfToken (room : known.length + tokens.length < valueMax) :
    ∃ after, Dwdiff.writeEndOfToken reading = .ok after ∧
      Kept options locale known input char true (tokens ++ [token]) runs pending [] after := by
  obtain ⟨after, writes, storedAfter⟩ := kept.stored.writeEndOfToken room
  refine ⟨after, writes, storedAfter, ?_⟩
  obtain ⟨result, -, isAfter⟩ := bind_eq_ok.mp writes
  rw [← Except.ok.inj isAfter]

theorem Kept.writeTokenChar :
    ∃ after, (dispatchSC options locale).writeTokenChar reading = .ok after ∧
      Kept options locale known input char tokenWritten tokens runs pending (token ++ [char])
        after := by
  obtain ⟨after, writes, storedAfter⟩ := kept.stored.writeTokenChar
  refine ⟨after, writes, storedAfter, ?_⟩
  rw [← Except.ok.inj writes]
  exact kept.written

theorem Kept.writeWhitespaceChar :
    ∃ after, (dispatchSC options locale).writeWhitespaceChar reading = .ok after ∧
      Kept options locale known input char tokenWritten tokens runs (pending ++ [char]) token
        after := by
  obtain ⟨after, writes, storedAfter⟩ := kept.stored.writeWhitespaceChar
  refine ⟨after, writes, storedAfter, ?_⟩
  rw [← Except.ok.inj writes]
  exact kept.written

/-- A part of the buffer becomes a run. -/
theorem Kept.writeRun (run : List UInt8) :
    ∃ after, (dispatchSC options locale).writeWhitespaceDelimiter
        { reading with whitespace := reading.whitespace ++ run.flatMap escapeByte } = .ok after ∧
      Kept options locale known input char tokenWritten tokens (runs ++ [run]) pending token
        after := by
  obtain ⟨atInput, atChar, tokenFile, whitespace, buffer, currentWord, diffTokens, hashtable⟩ :=
    kept.stored
  refine ⟨_, rfl, ⟨atInput, atChar, tokenFile, ?_, buffer, currentWord, diffTokens, hashtable⟩,
    kept.written⟩
  simp [whitespace, escaped]

/-- The buffer is empty once everything in it was written. -/
theorem Kept.clear :
    Kept options locale known input char tokenWritten tokens runs [] token
      { reading with whitespaceBuffer := [] } := by
  obtain ⟨atInput, atChar, tokenFile, whitespace, -, currentWord, diffTokens, hashtable⟩ :=
    kept.stored
  exact ⟨⟨atInput, atChar, tokenFile, whitespace, rfl, currentWord, diffTokens, hashtable⟩,
    kept.written⟩

theorem Kept.endWhole :
    ∃ after, Dwdiff.endWhole (dispatchSC options locale) reading = .ok after ∧
      Kept options locale known input char tokenWritten tokens (runs ++ [pending]) [] token
        after := by
  obtain ⟨after, writes, keptAfter⟩ := kept.writeRun pending
  rw [← kept.stored.whitespaceBuffer] at writes
  exact ⟨{ after with whitespaceBuffer := [] }, by rw [Dwdiff.endWhole, writes, ok_bind],
    keptAfter.clear⟩

omit kept in
theorem Kept.endSplit
    (kept : Kept options locale known input char tokenWritten tokens runs (first ++ second) token
      reading) (room : known.length + tokens.length < valueMax) :
    ∃ after, Dwdiff.endSplit (dispatchSC options locale) (first.flatMap escapeByte).length reading =
        .ok after ∧
      Kept options locale known input char true (tokens ++ [token]) (runs ++ [first] ++ [second])
        [] [] after := by
  have bytes := kept.stored.whitespaceBuffer
  rw [List.flatMap_append] at bytes
  have isFirst : reading.whitespaceBuffer.take (first.flatMap escapeByte).length =
      first.flatMap escapeByte := by rw [bytes, List.take_left]
  have isSecond : reading.whitespaceBuffer.drop (first.flatMap escapeByte).length =
      second.flatMap escapeByte := by rw [bytes, List.drop_left]
  obtain ⟨after1, writes1, kept1⟩ := kept.writeRun first
  obtain ⟨after2, writes2, kept2⟩ := kept1.writeRun second
  obtain ⟨after3, writes3, kept3⟩ := kept2.writeEndOfToken room
  rw [← isFirst] at writes1
  rw [← isSecond] at writes2
  refine ⟨{ after3 with whitespaceBuffer := [] }, ?_, kept3.clear⟩
  rw [Dwdiff.endSplit, writes1, ok_bind, writes2, ok_bind, writes3, ok_bind]

/-- The index of the split, in the buffer with its escapes. -/
theorem Kept.splitIndex :
    Dwdiff.splitIndex options reading =
      (splitRun options tokenWritten pending).map fun halves =>
        (halves.1.flatMap escapeByte).length := by
  unfold Dwdiff.splitIndex splitRun
  rw [kept.stored.whitespaceBuffer, kept.written]
  cases options.paraDelim with
  | false => rfl
  | true =>
    rw [if_pos rfl, if_pos rfl]
    rcases newline_cases pending with absent | ⟨before, rest, rfl, absent⟩
    · rw [findNewlines_none (newline_not_mem_escaped absent), splitParagraph_none absent]
      rfl
    · rw [findNewlines_escaped absent, splitParagraph_append absent]
      dsimp only
      split
      · rfl
      · split
        · simp [escapeByte]
        · rfl

/-- The files after the end of a run, with the run as it was split. -/
def Ended (options : Options) (locale : Locale) (known : List (List UInt8)) (input : Stream)
    (char : UInt8) (tokenWritten : Bool) (tokens runs : List (List UInt8))
    (pending token : List UInt8) (reading : Reading) : Prop :=
  match splitRun options tokenWritten pending with
  | none =>
    Kept options locale known input char tokenWritten tokens (runs ++ [pending]) [] token reading
  | some (first, second) =>
    Kept options locale known input char true (tokens ++ [token]) (runs ++ [first] ++ [second]) []
      [] reading

/-- A run that is split is not empty, so there is room for the empty token. -/
theorem Kept.handleWhitespaceEnd (room : known.length + tokens.length + pending.length ≤ valueMax) :
    ∃ after, Dwdiff.handleWhitespaceEnd options (dispatchSC options locale) reading = .ok after ∧
      Ended options locale known input char tokenWritten tokens runs pending token after := by
  rw [handleWhitespaceEnd_eq, kept.splitIndex]
  unfold Ended
  cases isSplit : splitRun options tokenWritten pending with
  | none => exact kept.endWhole
  | some halves =>
    obtain ⟨rfl, newline, -⟩ := splitRun_some isSplit
    have positive := List.length_pos_of_mem newline
    rw [List.length_append] at room
    exact kept.endSplit (by omega)

omit kept in
/-- An empty run is not split. -/
theorem Ended.whole
    (ended : Ended options locale known input char tokenWritten tokens runs [] token reading) :
    Kept options locale known input char tokenWritten tokens (runs ++ [[]]) [] token reading := by
  have unsplit : splitRun options tokenWritten [] = none := by
    unfold splitRun
    split <;> rfl
  unfold Ended at ended
  rwa [unsplit] at ended

end Operations

/-! ### Delimiters behind a paragraph -/

/-- One byte of a scan of the text: whether a delimiter was found right behind a run with two
newlines, and the number of newlines in the present run. -/
def scanByte (options : Options) (scan : Bool × Nat) (byte : UInt8) : Bool × Nat :=
  match byteCategory options byte with
  | .whitespace => (scan.1, scan.2 + if byte = 10 then 1 else 0)
  | .delimiter => (scan.1 || decide (2 ≤ scan.2), 0)
  | .other => (scan.1, 0)

def scan (options : Options) (text : List UInt8) : Bool × Nat :=
  text.foldl (scanByte options) (false, 0)

/-- Some delimiter stands right behind a run with two newlines. -/
def delimiterAfterParagraph (options : Options) (text : List UInt8) : Bool := (scan options text).1

theorem scan_append (options : Options) (text : List UInt8) (byte : UInt8) :
    scan options (text ++ [byte]) = scanByte options (scan options text) byte := by
  rw [scan, List.foldl_append]
  rfl

/-- Whether the text is stored in another order. -/
def disordered (options : Options) (text : List UInt8) : Bool :=
  options.paraDelim && delimiterAfterParagraph options text

variable {char : UInt8}

theorem disordered_delimiter (consumed : List UInt8)
    (delimiter : byteCategory options char = .delimiter) :
    disordered options (consumed ++ [char]) =
      (disordered options consumed ||
        options.paraDelim && decide (2 ≤ (scan options consumed).2)) := by
  rw [disordered, disordered, delimiterAfterParagraph, delimiterAfterParagraph, scan_append,
    scanByte, delimiter]
  exact Bool.and_or_distrib_left _ _ _

theorem disordered_other (consumed : List UInt8)
    (other : byteCategory options char ≠ .delimiter) :
    disordered options (consumed ++ [char]) = disordered options consumed := by
  rw [disordered, disordered, delimiterAfterParagraph, delimiterAfterParagraph, scan_append,
    scanByte]
  cases category : byteCategory options char with
  | delimiter => exact absurd category other
  | whitespace => rfl
  | other => rfl

/-- The runs of the words hold whitespace only. -/
def AllRuns (options : Options) (words : List Word) : Prop :=
  ∀ word ∈ words, IsRun options word.run

theorem AllRuns.snoc (runs : AllRuns options words) (isRun : IsRun options word.run) :
    AllRuns options (words ++ [word]) := by
  intro other isIn
  rcases List.mem_append.mp isIn with before | last
  · exact runs other before
  · rwa [List.mem_singleton.mp last]

/-! ### What has been read -/

/-- The words of what was consumed, and the run behind them. Taken in turn they are what was
consumed, unless a delimiter has overtaken the end of a paragraph. -/
structure Parsed (options : Options) (words : List Word) (pending consumed : List UInt8) :
    Prop where
  isRun : IsRun options pending
  few : words.length + pending.length ≤ consumed.length
  newlines : (scan options consumed).2 = pending.count 10
  same : textOf words ++ pending = consumed ↔ disordered options consumed = false
  runs : AllRuns options words
  good : options.paraDelim = false → GoodWords options words

theorem isRun_nil : IsRun options [] := fun _ absent => absurd absent List.not_mem_nil

section Parsed

variable {consumed : List UInt8}

theorem Parsed.start : Parsed options [] [] [] where
  isRun := isRun_nil
  few := Nat.le_refl _
  newlines := rfl
  same := iff_of_true rfl (Bool.and_false _)
  runs := fun _ absent => absurd absent List.not_mem_nil
  good := fun _ => GoodWords.nil

theorem Parsed.whitespace (parsed : Parsed options words pending consumed)
    (whitespace : byteCategory options char = .whitespace) :
    Parsed options words (pending ++ [char]) (consumed ++ [char]) where
  isRun := isRun_snoc parsed.isRun whitespace
  few := by
    have few := parsed.few
    simp only [List.length_append, List.length_singleton]
    omega
  newlines := by
    rw [scan_append, scanByte, whitespace, List.count_append, ← parsed.newlines,
      List.count_singleton]
    simp
  same := by
    rw [disordered_other consumed (by rw [whitespace]; decide), ← List.append_assoc,
      List.append_left_inj]
    exact parsed.same
  runs := parsed.runs
  good := parsed.good

/-- A delimiter behind a run that was not split. -/
theorem Parsed.delimiter (parsed : Parsed options words pending consumed)
    (delimiter : byteCategory options char = .delimiter)
    (single : (options.paraDelim && decide (2 ≤ pending.count 10)) = false) :
    Parsed options (words ++ [⟨pending, [char]⟩]) [] (consumed ++ [char]) where
  isRun := isRun_nil
  few := by
    have few := parsed.few
    simp only [List.length_append, List.length_singleton, List.length_nil]
    omega
  newlines := by
    rw [scan_append, scanByte, delimiter]
    rfl
  same := by
    rw [disordered_delimiter consumed delimiter, parsed.newlines, single, Bool.or_false,
      textOf_append, textOf_singleton, List.append_nil, ← List.append_assoc, List.append_left_inj]
    exact parsed.same
  runs := parsed.runs.snoc parsed.isRun
  good := fun off => (parsed.good off).snoc (delimiter_good parsed.isRun delimiter) fun last _ =>
    delimiter_apart delimiter last

/-- A delimiter behind a run that was split has overtaken the second half, which does not end with
a delimiter. -/
theorem Parsed.overtaken (parsed : Parsed options words (first ++ second) consumed)
    (delimiter : byteCategory options char = .delimiter) (newline : 10 ∈ second)
    (paragraphs : options.paraDelim = true) (double : 2 ≤ (first ++ second).count 10) :
    Parsed options (words ++ [⟨first, [char]⟩, ⟨second, []⟩]) [] (consumed ++ [char]) where
  isRun := isRun_nil
  few := by
    have few := parsed.few
    have positive := List.length_pos_of_mem newline
    simp only [List.length_append, List.length_cons, List.length_nil] at few ⊢
    omega
  newlines := by
    rw [scan_append, scanByte, delimiter]
    rfl
  same := by
    rw [disordered_delimiter consumed delimiter, parsed.newlines, decide_eq_true double, paragraphs,
      Bool.and_true, Bool.or_true]
    refine ⟨fun equal => ?_, fun absurd' => by contradiction⟩
    obtain ⟨front, final, rfl⟩ :=
      (List.eq_nil_or_concat' second).resolve_left (List.ne_nil_of_mem newline)
    have shape : textOf (words ++ [⟨first, [char]⟩, ⟨front ++ [final], []⟩]) ++ [] =
        textOf words ++ first ++ [char] ++ front ++ [final] := by simp
    rw [shape] at equal
    have ends : final = char := List.singleton_inj.mp (List.append_inj' equal rfl).2
    have whitespace := parsed.isRun final (by simp)
    rw [ends, delimiter] at whitespace
    contradiction
  runs := by
    rw [List.append_cons]
    exact (parsed.runs.snoc fun byte isIn => parsed.isRun byte (List.mem_append_left _ isIn)).snoc
      fun byte isIn => parsed.isRun byte (List.mem_append_right _ isIn)
  good := fun off => by
    rw [off] at paragraphs
    contradiction

/-- A byte that is neither delimiter nor whitespace starts a word, behind the run as it was
split. -/
theorem Parsed.begin (parsed : Parsed options words pending consumed)
    (other : byteCategory options char = .other)
    (apart : options.paraDelim = false → pending = [] →
      ∀ last ∈ words.getLast?, ¬ IsPlain options last.token)
    {words' : List Word} {run : List UInt8}
    (text : textOf words' ++ run = textOf words ++ pending)
    (few : words'.length ≤ consumed.length) (runs : AllRuns options words')
    (isRun : IsRun options run)
    (whole : options.paraDelim = false → words' = words ∧ run = pending) :
    Parsed options (words' ++ [⟨run, [char]⟩]) [] (consumed ++ [char]) where
  isRun := isRun_nil
  few := by
    simp only [List.length_append, List.length_singleton, List.length_nil]
    omega
  newlines := by
    rw [scan_append, scanByte, other]
    rfl
  same := by
    rw [disordered_other consumed (by rw [other]; decide), textOf_append, textOf_singleton,
      List.append_nil, ← List.append_assoc, text, List.append_left_inj]
    exact parsed.same
  runs := runs.snoc isRun
  good := fun off => by
    obtain ⟨rfl, rfl⟩ := whole off
    exact (parsed.good off).snoc ⟨isRun, Or.inr (plain_single other)⟩
      fun last isLast plain _ empty =>
      apart off empty last isLast plain

/-- A byte that is neither delimiter nor whitespace continues a word. -/
theorem Parsed.extend (parsed : Parsed options (words ++ [word]) [] consumed)
    (other : byteCategory options char = .other)
    (plain : options.paraDelim = false → IsPlain options word.token) :
    Parsed options (words ++ [⟨word.run, word.token ++ [char]⟩]) [] (consumed ++ [char]) where
  isRun := isRun_nil
  few := by
    have few := parsed.few
    simp only [List.length_append, List.length_singleton, List.length_nil] at few ⊢
    omega
  newlines := by
    rw [scan_append, scanByte, other]
    rfl
  same := by
    have same := parsed.same
    rw [textOf_append, textOf_singleton, List.append_nil] at same
    rw [disordered_other consumed (by rw [other]; decide), textOf_append, textOf_singleton,
      List.append_nil, ← List.append_assoc, ← List.append_assoc, List.append_left_inj,
      List.append_assoc]
    exact same
  runs := AllRuns.snoc (fun other isIn => parsed.runs other (List.mem_append_left _ isIn))
    (parsed.runs word (by simp) : IsRun options word.run)
  good := fun off => by
    have good := parsed.good off
    obtain ⟨front, -, joined⟩ := List.isChain_append.mp good.apart
    refine GoodWords.snoc ⟨fun other isOne => good.good other (List.mem_append_left _ isOne),
      front⟩ ⟨(good.good word (by simp)).run, Or.inr (isPlain_snoc (plain off) other)⟩
      fun last isLast isPlain _ => ?_
    exact joined last isLast word rfl isPlain (plain off)

end Parsed

/-! ### The loop -/

/-- The invariant of the loop of `readFile`, for each state: the words of what was consumed, and how
they are stored. -/
inductive Turn (options : Options) (locale : Locale) (known : List (List UInt8))
    (input : Stream) (char : UInt8) : MatchState → List UInt8 → Reading → Prop where
  | start {reading : Reading}
      (kept : Kept options locale known input char false [] [] [] [] reading) :
      Turn options locale known input char .none [] reading
  | between (words : List Word) {pending consumed : List UInt8} {tokenWritten : Bool}
      {reading : Reading}
      (kept : Kept options locale known input char tokenWritten (words.map Word.token)
        (words.map Word.run) pending [] reading)
      (parsed : Parsed options words pending consumed)
      (apart : options.paraDelim = false → pending = [] →
        ∀ last ∈ words.getLast?, ¬ IsPlain options last.token) :
      Turn options locale known input char .whitespace consumed reading
  | inside (words : List Word) (word : Word) {consumed : List UInt8} {tokenWritten : Bool}
      {reading : Reading}
      (kept : Kept options locale known input char tokenWritten (words.map Word.token)
        ((words ++ [word]).map Word.run) [] word.token reading)
      (parsed : Parsed options (words ++ [word]) [] consumed)
      (plain : options.paraDelim = false → IsPlain options word.token) :
      Turn options locale known input char .word consumed reading

section Steps

variable {state : MatchState} {consumed : List UInt8}

/-- What one round of the loop does to a turn. -/
def Turns (options : Options) (locale : Locale) (known : List (List UInt8)) (input : Stream)
    (char : UInt8) (consumed : List UInt8)
    (result : Except Failure (MatchState × Nat × Reading)) : Prop :=
  ∃ state wordCount reading, result = .ok (state, wordCount, reading) ∧
    Turn options locale known input char state consumed reading

/-- The end of the run before a word; the first half of a run that is split belongs to the empty
token. -/
theorem ended_words (parsed : Parsed options words pending consumed)
    (ended : Ended options locale known input char tokenWritten (words.map Word.token)
      (words.map Word.run) pending [] reading) :
    ∃ tokenWritten' words' run,
      Kept options locale known input char tokenWritten' (words'.map Word.token)
        (words'.map Word.run ++ [run]) [] [] reading ∧
      textOf words' ++ run = textOf words ++ pending ∧ words'.length ≤ consumed.length ∧
      AllRuns options words' ∧ IsRun options run ∧
      (options.paraDelim = false → words' = words ∧ run = pending) := by
  have few := parsed.few
  unfold Ended at ended
  cases isSplit : splitRun options tokenWritten pending with
  | none =>
    rw [isSplit] at ended
    exact ⟨tokenWritten, words, pending, ended, rfl, by omega, parsed.runs, parsed.isRun,
      fun _ => ⟨rfl, rfl⟩⟩
  | some halves =>
    obtain ⟨first, second⟩ := halves
    rw [isSplit] at ended
    obtain ⟨rfl, newline, paragraphs⟩ := splitRun_some isSplit
    refine ⟨true, words ++ [⟨first, []⟩], second, by simpa using ended, by simp, ?_,
      parsed.runs.snoc fun byte isIn => parsed.isRun byte (List.mem_append_left _ isIn),
      fun byte isIn => parsed.isRun byte (List.mem_append_right _ isIn), fun off => ?_⟩
    · have positive := List.length_pos_of_mem newline
      simp only [List.length_append, List.length_singleton] at few ⊢
      omega
    · rw [off] at paragraphs
      contradiction

/-- A delimiter behind a run that was not split is a token of its own. -/
theorem turn_delimiter (words : List Word) (delimiter : byteCategory options char = .delimiter)
    (kept : Kept options locale known input char tokenWritten (words.map Word.token ++ [[char]])
      (words.map Word.run ++ [pending]) [] [] reading)
    (parsed : Parsed options words pending consumed)
    (single : (options.paraDelim && decide (2 ≤ pending.count 10)) = false) :
    Turn options locale known input char .whitespace (consumed ++ [char]) reading := by
  refine .between (words ++ [⟨pending, [char]⟩]) (by simpa using kept)
    (parsed.delimiter delimiter single) fun _ _ last isLast => ?_
  rw [List.getLast?_concat, Option.mem_some_iff] at isLast
  exact isLast ▸ not_plain_of_delimiter ⟨char, rfl, delimiter⟩

section Between

variable (kept : Kept options locale known input char tokenWritten (words.map Word.token)
    (words.map Word.run) pending [] reading) (parsed : Parsed options words pending consumed)

include kept parsed

/-- Whitespace goes to the buffer. -/
theorem turns_whitespace (whitespace : byteCategory options char = .whitespace)
    (wordCount : Nat) :
    Turns options locale known input char (consumed ++ [char]) (do
      let reading ← (dispatchSC options locale).writeWhitespaceChar reading
      .ok (.whitespace, wordCount, reading)) := by
  obtain ⟨after, writes, keptAfter⟩ := kept.writeWhitespaceChar
  exact ⟨.whitespace, wordCount, after, by rw [writes, ok_bind],
    .between words keptAfter (parsed.whitespace whitespace) (by simp)⟩

variable (apart : options.paraDelim = false → pending = [] →
    ∀ last ∈ words.getLast?, ¬ IsPlain options last.token)
  (room : known.length + consumed.length < valueMax)

include apart room

/-- A byte that is neither delimiter nor whitespace starts a word. -/
theorem turns_begin (other : byteCategory options char = .other) (wordCount : Nat) :
    Turns options locale known input char (consumed ++ [char]) (do
      let reading ← handleWhitespaceEnd options (dispatchSC options locale) reading
      let reading ← (dispatchSC options locale).writeTokenChar reading
      .ok (.word, wordCount, reading)) := by
  have few := parsed.few
  obtain ⟨ended, ends, isEnded⟩ := kept.handleWhitespaceEnd (by rw [List.length_map]; omega)
  obtain ⟨_, words', run, keptEnd, text, few', runs, isRun, whole⟩ := ended_words parsed isEnded
  obtain ⟨after, writes, keptAfter⟩ := keptEnd.writeTokenChar
  exact ⟨.word, wordCount, after, by rw [ends, ok_bind, writes, ok_bind],
    .inside words' ⟨run, [char]⟩ (by simpa using keptAfter)
      (parsed.begin other apart text few' runs isRun whole) fun _ => plain_single other⟩

theorem turns_between (wordCount : Nat) :
    Turns options locale known input char (consumed ++ [char])
      (readStep options (dispatchSC options locale) (byteCategory options char) .whitespace
        wordCount reading) := by
  have few := parsed.few
  cases category : byteCategory options char with
  | whitespace => exact turns_whitespace kept parsed category wordCount
  | other => exact turns_begin kept parsed apart room category wordCount
  | delimiter =>
    obtain ⟨written, writes, keptWritten⟩ := kept.writeTokenChar
    obtain ⟨closed, closes, keptClosed⟩ := keptWritten.writeEndOfToken (by simp; omega)
    obtain ⟨after, ends, isEnded⟩ := keptClosed.handleWhitespaceEnd (by simp; omega)
    refine ⟨.whitespace, wordCount + 1, after, by simp only [readStep, writes, closes, ends,
      ok_bind], ?_⟩
    have broken := splitRun_isSome options pending
    unfold Ended at isEnded
    cases isSplit : splitRun options true pending with
    | none =>
      rw [isSplit] at isEnded broken
      exact turn_delimiter words category isEnded parsed broken.symm
    | some halves =>
      obtain ⟨first, second⟩ := halves
      rw [isSplit] at isEnded broken
      obtain ⟨rfl, newline, paragraphs⟩ := splitRun_some isSplit
      rw [paragraphs, Bool.true_and] at broken
      refine .between (words ++ [⟨first, [char]⟩, ⟨second, []⟩]) (by simpa using isEnded)
        (parsed.overtaken category newline paragraphs (of_decide_eq_true broken.symm)) fun off => ?_
      rw [off] at paragraphs
      contradiction

end Between

theorem turns_none (kept : Kept options locale known input char false [] [] [] [] reading)
    (room : known.length < valueMax) (wordCount : Nat) :
    Turns options locale known input char [char]
      (readStep options (dispatchSC options locale) (byteCategory options char) .none wordCount
        reading) := by
  cases category : byteCategory options char with
  | whitespace => exact turns_whitespace kept Parsed.start category wordCount
  | other => exact turns_begin kept Parsed.start (by simp) room category wordCount
  | delimiter =>
    obtain ⟨ended, ends, isEnded⟩ := kept.handleWhitespaceEnd room.le
    obtain ⟨written, writes, keptWritten⟩ := isEnded.whole.writeTokenChar
    obtain ⟨after, closes, keptAfter⟩ := keptWritten.writeEndOfToken room
    exact ⟨.whitespace, wordCount, after, by simp only [readStep, ends, writes, closes, ok_bind],
      turn_delimiter [] category keptAfter Parsed.start (Bool.and_false _)⟩

theorem turns_inside
    (kept : Kept options locale known input char tokenWritten (words.map Word.token)
      ((words ++ [word]).map Word.run) [] word.token reading)
    (parsed : Parsed options (words ++ [word]) [] consumed)
    (plain : options.paraDelim = false → IsPlain options word.token)
    (room : known.length + consumed.length < valueMax) (wordCount : Nat) :
    Turns options locale known input char (consumed ++ [char])
      (readStep options (dispatchSC options locale) (byteCategory options char) .word
        wordCount reading) := by
  have few := parsed.few
  rw [List.length_append, List.length_singleton, List.length_nil] at few
  cases category : byteCategory options char with
  | other =>
    obtain ⟨after, writes, keptAfter⟩ := kept.writeTokenChar
    exact ⟨.word, wordCount, after, by simp only [readStep, writes, ok_bind],
      .inside words ⟨word.run, word.token ++ [char]⟩ (by simpa using keptAfter)
        (parsed.extend category plain) fun off => isPlain_snoc (plain off) category⟩
  | whitespace =>
    obtain ⟨closed, closes, keptClosed⟩ := kept.writeEndOfToken (by simp; omega)
    rw [readStep, closes, ok_bind]
    exact turns_whitespace (by simpa using keptClosed) parsed category (wordCount + 1)
  | delimiter =>
    obtain ⟨closed, closes, keptClosed⟩ := kept.writeEndOfToken (by simp; omega)
    obtain ⟨written, writes, keptWritten⟩ := keptClosed.writeTokenChar
    obtain ⟨closed', closes', keptClosed'⟩ := keptWritten.writeEndOfToken (by simp; omega)
    obtain ⟨after, ends, isEnded⟩ := keptClosed'.handleWhitespaceEnd (by simp; omega)
    exact ⟨.whitespace, wordCount + 2, after,
      by simp only [readStep, closes, writes, closes', ends, ok_bind],
      turn_delimiter (words ++ [word]) category (by simpa using isEnded.whole) parsed
        (Bool.and_false _)⟩

variable (turn : Turn options locale known input char state consumed reading)

include turn

/-- One round of the loop. -/
theorem Turn.step (room : known.length + consumed.length < valueMax) (wordCount : Nat) :
    Turns options locale known input char (consumed ++ [char])
      (readStep options (dispatchSC options locale) (byteCategory options char) state wordCount
        reading) := by
  cases turn with
  | start kept => exact turns_none kept room wordCount
  | between words kept parsed apart => exact turns_between kept parsed apart room wordCount
  | inside words word kept parsed plain => exact turns_inside kept parsed plain room wordCount

theorem Turn.read (input' : Stream) (charData : CharData) :
    Turn options locale known input' charData.singleChar state consumed
      { reading with input := input', charData := charData } := by
  cases turn with
  | start kept => exact .start ⟨kept.stored.read input' charData, kept.written⟩
  | between words kept parsed apart =>
    exact .between words ⟨kept.stored.read input' charData, kept.written⟩ parsed apart
  | inside words word kept parsed plain =>
    exact .inside words word ⟨kept.stored.read input' charData, kept.written⟩ parsed plain

theorem Turn.atInput : reading.input = input := by
  cases turn with
  | start kept | between words kept parsed apart => exact kept.stored.atInput
  | inside words word kept parsed plain => exact kept.stored.atInput

end Steps

/-! ### Whole files -/

/-- What `readFile` has made of an input, with or without paragraphs. -/
structure Filed (options : Options) (locale : Locale) (known : List (List UInt8))
    (input : List UInt8) (words : List Word) (last : List UInt8) (reading : Reading) : Prop where
  stored : ∃ final char, Stored options locale known final char (words.map Word.token)
    (words.map Word.run ++ [last]) [] [] reading
  runs : AllRuns options words
  isRun : IsRun options last
  few : words.length ≤ input.length
  good : options.paraDelim = false → GoodWords options words
  text : options.paraDelim = false → textOf words ++ last = input

/-- The part of `readFile` behind its loop. -/
def finishReading (options : Options) (table : DispatchTable) (state : MatchState) (wordCount : Nat)
    (reading : Reading) : Except Failure (Nat × Reading) := do
  let reading ← handleWhitespaceEnd options table reading
  match state with
  | .word => do
    let reading ← writeEndOfToken reading
    .ok (wordCount + 1, reading)
  | _ => .ok (wordCount, reading)

/-- What `readFile` leaves behind. -/
theorem readFile_filed (singleByte : options.utf8Mode = false) (input : List UInt8)
    (charData : CharData) {table : Hashtable} {known : List (List UInt8)}
    (interns : Interns table known) (room : known.length + input.length ≤ valueMax) :
    ∃ wordCount reading words last,
      readFile options locale input charData table = .ok (wordCount, reading) ∧
      Filed options locale known input words last reading ∧
      (textOf words ++ last = input ↔ disordered options input = false) := by
  have isSingle : dispatch options locale = dispatchSC options locale := by
    rw [dispatch, singleByte]
    rfl
  have start : Turn options locale known (newFileStream input) charData.singleChar .none []
      (startReading input charData table) :=
    .start ⟨⟨rfl, rfl, rfl, rfl, rfl, rfl, rfl, interns⟩, rfl⟩
  obtain ⟨final, char, state, wordCount, reading, loops, turn⟩ :=
    @readLoop_rule options locale (Turn options locale known) input.length Turn.atInput Turn.read
      (fun turn below => turn.step (by omega)) input (input.length + 2) _ _ _ [] _ 0
      rfl (by omega) (by simp) start
  rw [List.nil_append] at turn
  have unfolded : readFile options locale input charData table =
      finishReading options (dispatchSC options locale) state wordCount reading := by
    rw [readFile, isSingle, loops]
    rfl
  have inOrder : options.paraDelim = false → disordered options input = false := fun off => by
    rw [disordered, off, Bool.false_and]
  rw [unfolded]
  unfold finishReading
  -- The files between two words, or before the first one.
  have ends : ∀ {words : List Word} {pending : List UInt8} {tokenWritten : Bool}
      {reading : Reading},
      Kept options locale known final char tokenWritten (words.map Word.token)
        (words.map Word.run) pending [] reading → Parsed options words pending input →
      ∃ after words' last,
        handleWhitespaceEnd options (dispatchSC options locale) reading = .ok after ∧
        Filed options locale known input words' last after ∧
        (textOf words' ++ last = input ↔ disordered options input = false) := by
    intro words pending tokenWritten reading kept parsed
    have few := parsed.few
    obtain ⟨after, ends, isEnded⟩ := kept.handleWhitespaceEnd (by rw [List.length_map]; omega)
    obtain ⟨_, words', last, keptAfter, text, few', runs, isRun, whole⟩ :=
      ended_words parsed isEnded
    have same : textOf words' ++ last = input ↔ disordered options input = false := by
      rw [text]
      exact parsed.same
    exact ⟨after, words', last, ends, ⟨⟨final, char, keptAfter.stored⟩, runs, isRun, few',
      fun off => (whole off).1 ▸ parsed.good off, fun off => same.mpr (inOrder off)⟩, same⟩
  cases turn with
  | start kept =>
    obtain ⟨after, words, last, ends, filed⟩ := @ends [] [] _ _ kept Parsed.start
    exact ⟨wordCount, after, words, last, by rw [ends, ok_bind], filed⟩
  | between words kept parsed apart =>
    obtain ⟨after, words', last, ends, filed⟩ := ends kept parsed
    exact ⟨wordCount, after, words', last, by rw [ends, ok_bind], filed⟩
  | inside words word kept parsed plain =>
    have few := parsed.few
    have same := parsed.same
    rw [List.length_append, List.length_singleton, List.length_nil] at few
    obtain ⟨ended, ends, isEnded⟩ := kept.handleWhitespaceEnd (by simp; omega)
    obtain ⟨after, closes, keptAfter⟩ := isEnded.whole.writeEndOfToken (by simp; omega)
    exact ⟨wordCount + 1, after, words ++ [word], [], by rw [ends, ok_bind, closes, ok_bind],
      ⟨⟨final, char, by simpa using keptAfter.stored⟩, parsed.runs, isRun_nil, by simpa using few,
        parsed.good, fun off => same.mpr (inOrder off)⟩, same⟩

/-! ### The round trip -/

/-- In single-byte mode the two temporary files are read back as the words of the input. A run is
written with its length in an `int`, in which the bytes of the input can be counted even when all of
them are escaped. -/
theorem readFile_roundTrip (locale : Locale) (singleByte : options.utf8Mode = false)
    (noParagraphs : options.paraDelim = false) (input : List UInt8) (charData : CharData)
    {table : Hashtable} {known : List (List UInt8)} (interns : Interns table known)
    (size : 2 * input.length < 2 ^ 31) (room : known.length + 2 ^ 31 ≤ valueMax) :
    ∃ wordCount reading words last,
      readFile options locale input charData table = .ok (wordCount, reading) ∧
      readPieces options locale (words.length + 1) (newFileStream reading.tokens) =
        .ok (words.map fun word => word.token.map .single) ∧
      readPieces options locale (words.length + 2) (newFileStream reading.whitespace) =
        .ok ((words.map Word.run ++ [last]).map (List.map .single)) ∧
      Splits options input words last ∧
      reading.diffTokens.length = words.length := by
  obtain ⟨wordCount, reading, words, last, reads, filed, -⟩ :=
    @readFile_filed options locale singleByte input charData _ _ interns (by omega)
  obtain ⟨final, char, stored⟩ := filed.stored
  have tokens := @readPieces_escaped options locale (newFileStream reading.tokens) singleByte
    (words.map Word.token) (words.length + 1) (by simp) (by simpa using stored.tokenFile)
  have runs := @readPieces_escaped options locale (newFileStream reading.whitespace) singleByte
    (words.map Word.run ++ [last]) (words.length + 2) (by simp) stored.whitespace
  refine ⟨wordCount, reading, words, last, reads, ?_, runs, ?_, ?_⟩
  · rw [tokens, List.map_map]
    rfl
  · rw [← filed.text noParagraphs]
    exact (filed.good noParagraphs).splits filed.isRun
  · rw [stored.diffTokens, List.length_map, List.length_map, List.length_map]

theorem readFile_roundTrip_small :
    ∃ wordCount reading words last,
      readFile defaultOptions cLocale [97, 1, 32, 98] ⟨0, [], [], []⟩ Hashtable.empty =
        .ok (wordCount, reading) ∧
      readPieces defaultOptions cLocale (words.length + 1) (newFileStream reading.tokens) =
        .ok (words.map fun word => word.token.map .single) ∧
      readPieces defaultOptions cLocale (words.length + 2) (newFileStream reading.whitespace) =
        .ok ((words.map Word.run ++ [last]).map (List.map .single)) ∧
      Splits defaultOptions [97, 1, 32, 98] words last ∧
      reading.diffTokens.length = words.length :=
  readFile_roundTrip cLocale rfl rfl [97, 1, 32, 98] ⟨0, [], [], []⟩ Interns.empty (by decide)
    (by decide)

/-! ### The text in place -/

/-- The runs and the tokens of the two files, taken in turn, are the text; there is one run more
than there are tokens. -/
def KeepsText (options : Options) (locale : Locale) (input : List UInt8) (reading : Reading) :
    Prop :=
  ∃ words last,
    readPieces options locale (reading.tokens.length + 1) (newFileStream reading.tokens) =
      .ok (words.map fun word => word.token.map .single) ∧
    readPieces options locale (reading.whitespace.length + 1) (newFileStream reading.whitespace) =
      .ok ((words.map Word.run ++ [last]).map (List.map .single)) ∧
    textOf words ++ last = input

theorem length_le_flatMap_escaped (pieces : List (List UInt8)) :
    pieces.length ≤ (pieces.flatMap escaped).length := by
  induction pieces with
  | nil => exact Nat.le_refl 0
  | cons piece pieces inductionHypothesis =>
    rw [List.flatMap_cons, List.length_append, List.length_cons, escaped, List.length_append]
    simp only [List.length_singleton]
    omega

/-- The two halves of a sequence of words determine it. -/
theorem words_ext {words' : List Word} (runs : words.map Word.run = words'.map Word.run)
    (tokens : words.map Word.token = words'.map Word.token) : words = words' := by
  induction words generalizing words' with
  | nil => exact (List.map_eq_nil_iff.mp runs.symm).symm
  | cons word words inductionHypothesis =>
    cases words' with
    | nil => contradiction
    | cons word' words' =>
      rw [List.map_cons, List.map_cons, List.cons.injEq] at runs tokens
      have same : word = word' := by
        cases word
        cases word'
        exact congrArg₂ Word.mk runs.1 tokens.1
      rw [same, inductionHypothesis runs.2 tokens.2]

/-- The files hold exactly one sequence of words. -/
theorem keepsText_iff (singleByte : options.utf8Mode = false) {words : List Word}
    {last : List UInt8} {reading : Reading}
    (tokenBytes : reading.tokens = (words.map Word.token).flatMap escaped)
    (runBytes : reading.whitespace = (words.map Word.run ++ [last]).flatMap escaped)
    (text : List UInt8) :
    KeepsText options locale text reading ↔ textOf words ++ last = text := by
  have single : Function.Injective (List.map ReadChar.single) :=
    List.map_injective_iff.mpr fun _ _ same => ReadChar.single.inj same
  have tokens := @readPieces_escaped options locale (newFileStream reading.tokens) singleByte
    (words.map Word.token) (reading.tokens.length + 1) (by
      have := length_le_flatMap_escaped (words.map Word.token)
      rw [tokenBytes]
      omega) tokenBytes
  have runs := @readPieces_escaped options locale (newFileStream reading.whitespace) singleByte
    (words.map Word.run ++ [last]) (reading.whitespace.length + 1) (by
      have := length_le_flatMap_escaped (words.map Word.run ++ [last])
      rw [runBytes]
      omega) runBytes
  constructor
  · rintro ⟨words', last', tokens', runs', text'⟩
    rw [tokens, List.map_map] at tokens'
    rw [runs] at runs'
    obtain ⟨sameRuns, sameLast⟩ := List.append_inj'
      (List.map_injective_iff.mpr single (Except.ok.inj runs')) rfl
    have sameTokens : words.map Word.token = words'.map Word.token := by
      refine List.map_injective_iff.mpr single ?_
      rw [List.map_map, List.map_map]
      exact Except.ok.inj tokens'
    rw [words_ext sameRuns sameTokens, List.singleton_inj.mp sameLast]
    exact text'
  · intro isText
    refine ⟨words, last, ?_, runs, isText⟩
    rw [tokens, List.map_map]
    rfl

/-- In paragraph mode the text stays in place unless a delimiter stands right behind an empty
line. The lengths of the runs are counted in an `int`. -/
theorem readFile_keepsText_iff (locale : Locale) (singleByte : options.utf8Mode = false)
    (paragraphs : options.paraDelim = true) (input : List UInt8) (charData : CharData)
    {table : Hashtable} {known : List (List UInt8)} (interns : Interns table known)
    (size : 2 * input.length < 2 ^ 31) (room : known.length + 2 ^ 31 ≤ valueMax) :
    ∃ wordCount reading, readFile options locale input charData table = .ok (wordCount, reading) ∧
      (KeepsText options locale input reading ↔
        delimiterAfterParagraph options input = false) := by
  obtain ⟨wordCount, reading, words, last, reads, filed, same⟩ :=
    @readFile_filed options locale singleByte input charData _ _ interns (by omega)
  obtain ⟨final, char, stored⟩ := filed.stored
  refine ⟨wordCount, reading, reads, ?_⟩
  rw [keepsText_iff singleByte (by simpa using stored.tokenFile) stored.whitespace, same,
    disordered, paragraphs, Bool.true_and]

/-- Paragraph mode with a comma as a delimiter. -/
def commaParagraphs : Options :=
  { defaultOptions with paraDelim := true, delimiters := commaSet }

theorem readFile_keepsText_iff_words :
    ∃ wordCount reading,
      readFile commaParagraphs cLocale [97, 10, 10, 98] ⟨0, [], [], []⟩ Hashtable.empty =
        .ok (wordCount, reading) ∧
      (KeepsText commaParagraphs cLocale [97, 10, 10, 98] reading ↔
        delimiterAfterParagraph commaParagraphs [97, 10, 10, 98] = false) :=
  readFile_keepsText_iff cLocale rfl rfl [97, 10, 10, 98] ⟨0, [], [], []⟩ Interns.empty (by decide)
    (by decide)

/-- The text `a`, an empty line and a comma: the second newline comes back behind the comma. -/
theorem readFile_overtakes_newline :
    ∃ reading, readFile commaParagraphs cLocale [97, 10, 10, 44] ⟨0, [], [], []⟩ Hashtable.empty =
        .ok (2, reading) ∧
      reading.tokens = [97, 0, 44, 0, 0] ∧ reading.whitespace = [0, 10, 0, 10, 0, 0] ∧
      ¬ KeepsText commaParagraphs cLocale [97, 10, 10, 44] reading := by
  have files : (readFile commaParagraphs cLocale [97, 10, 10, 44] ⟨0, [], [], []⟩
      Hashtable.empty).map (fun result => (result.1, result.2.tokens, result.2.whitespace)) =
      .ok (2, [97, 0, 44, 0, 0], [0, 10, 0, 10, 0, 0]) := by decide +kernel
  cases returns : readFile commaParagraphs cLocale [97, 10, 10, 44] ⟨0, [], [], []⟩
      Hashtable.empty with
  | error failure =>
    rw [returns] at files
    contradiction
  | ok result =>
    obtain ⟨wordCount, reading⟩ := result
    rw [returns] at files
    obtain ⟨rfl, isTokens, isWhitespace⟩ : wordCount = 2 ∧ reading.tokens = [97, 0, 44, 0, 0] ∧
        reading.whitespace = [0, 10, 0, 10, 0, 0] := by
      simpa [Except.map] using files
    refine ⟨reading, rfl, isTokens, isWhitespace, ?_⟩
    rw [@keepsText_iff commaParagraphs cLocale rfl [⟨[], [97]⟩, ⟨[10], [44]⟩, ⟨[10], []⟩] []
      reading isTokens isWhitespace]
    decide

end Dwdiff
