/-
This file is about `dwfilter`: deleted and common words are printed without any
markers, added words are not. It proves that what is written are the words of the
old file, as far as words are compared, each of them behind whitespace of one of the
files. The output is split into the same words again if none of them is written
directly behind another one that it runs together with, and the file shows for which
inputs this is so.
-/

import Dwdiff.Echo

namespace Dwdiff

open Diff Outcome Interning
open Failure (OfText)

variable {options : Options} {locale : Locale} {token rest : List UInt8} {event : Event}
  {side : Side} {taking : Taking}

/-! ### A text is split into words in one way only -/

/-- What comes first of one class of bytes is determined by the whole. -/
theorem append_inj_of_class {p : UInt8 → Bool} {first first' rest rest' : List UInt8}
    (same : first ++ rest = first' ++ rest') (inside : ∀ byte ∈ first, p byte = true)
    (inside' : ∀ byte ∈ first', p byte = true) (ends : ∀ byte ∈ rest.head?, p byte = false)
    (ends' : ∀ byte ∈ rest'.head?, p byte = false) : first = first' ∧ rest = rest' := by
  have stops : ∀ {list : List UInt8}, (∀ byte ∈ list.head?, p byte = false) →
      list.takeWhile p = [] := by
    intro list ends
    cases list with
    | nil => rfl
    | cons byte list => rw [List.takeWhile_cons, ends byte rfl, if_neg Bool.false_ne_true]
  have taken := congrArg (List.takeWhile p) same
  rw [List.takeWhile_append_of_pos inside, List.takeWhile_append_of_pos inside', stops ends,
    stops ends', List.append_nil, List.append_nil] at taken
  subst taken
  exact ⟨rfl, List.append_cancel_left same⟩

/-- The first byte of a token is no whitespace. -/
theorem delimiter_head {byte : UInt8} (delimiter : IsDelimiter options token)
    (isHead : byte ∈ (token ++ rest).head?) :
    token = [byte] ∧ byteCategory options byte = .delimiter := by
  obtain ⟨first, rfl, isDelimiter⟩ := delimiter
  obtain rfl := Option.some.inj isHead
  exact ⟨rfl, isDelimiter⟩

theorem plain_head {byte : UInt8} (plain : IsPlain options token)
    (isHead : byte ∈ (token ++ rest).head?) : byteCategory options byte = .other := by
  obtain ⟨first, token, rfl⟩ := List.exists_cons_of_ne_nil plain.1
  obtain rfl := Option.some.inj isHead
  exact plain.2 first List.mem_cons_self

theorem Word.Good.head {word : Word} (good : word.Good options) (rest : List UInt8) :
    ∀ byte ∈ (word.token ++ rest).head?, byteCategory options byte ≠ .whitespace := by
  intro byte isHead
  rcases good.token with delimiter | plain
  · rw [(delimiter_head delimiter isHead).2]
    decide
  · rw [plain_head plain isHead]
    decide

/-- The bytes of one category, and what follows them. -/
theorem category_inj {category : Category} {front front' rest' : List UInt8}
    (same : front ++ rest = front' ++ rest')
    (all : ∀ byte ∈ front, byteCategory options byte = category)
    (all' : ∀ byte ∈ front', byteCategory options byte = category)
    (ends : ∀ byte ∈ rest.head?, byteCategory options byte ≠ category)
    (ends' : ∀ byte ∈ rest'.head?, byteCategory options byte ≠ category) :
    front = front' ∧ rest = rest' :=
  @append_inj_of_class (fun byte => byteCategory options byte == category) _ _ _ _ same
    (fun byte isIn => beq_iff_eq.mpr (all byte isIn))
    (fun byte isIn => beq_iff_eq.mpr (all' byte isIn))
    (fun byte isHead => beq_eq_false_iff_ne.mpr (ends byte isHead))
    (fun byte isHead => beq_eq_false_iff_ne.mpr (ends' byte isHead))

/-- The token of the first word and what follows it. -/
theorem token_inj {word word' : Word} {words words' : List Word} {last last' : List UInt8}
    (good : GoodWords options (word :: words)) (good' : GoodWords options (word' :: words'))
    (isRun : IsRun options last) (isRun' : IsRun options last')
    (same : word.token ++ (textOf words ++ last) = word'.token ++ (textOf words' ++ last')) :
    word.token = word'.token ∧ textOf words ++ last = textOf words' ++ last' := by
  obtain ⟨byte, isHead⟩ : ∃ byte, byte ∈ (word.token ++ (textOf words ++ last)).head? := by
    obtain ⟨byte, token, isToken⟩ :=
      List.exists_cons_of_ne_nil (good.good word List.mem_cons_self).nonempty
    exact ⟨byte, by rw [isToken]; rfl⟩
  have isHead' := isHead
  rw [same] at isHead'
  rcases (good.good word List.mem_cons_self).token with delimiter | plain
  · obtain ⟨isToken, isDelimiter⟩ := delimiter_head delimiter isHead
    rcases (good'.good word' List.mem_cons_self).token with delimiter' | plain'
    · obtain ⟨isToken', -⟩ := delimiter_head delimiter' isHead'
      rw [isToken, isToken'] at same
      exact ⟨isToken.trans isToken'.symm, List.append_cancel_left same⟩
    · rw [plain_head plain' isHead'] at isDelimiter
      contradiction
  · have isOther := plain_head plain isHead
    rcases (good'.good word' List.mem_cons_self).token with delimiter' | plain'
    · rw [(delimiter_head delimiter' isHead').2] at isOther
      contradiction
    · refine category_inj same plain.2 plain'.2 (fun byte => ?_) (fun byte => ?_)
      · exact @GoodWords.after options [] word words good plain last isRun byte
      · exact @GoodWords.after options [] word' words' good' plain' last' isRun' byte

theorem GoodWords.tail {word : Word} {words : List Word}
    (good : GoodWords options (word :: words)) : GoodWords options words :=
  ⟨fun other isIn => good.good other (List.mem_cons_of_mem _ isIn), good.apart.tail⟩

/-- A run of whitespace is no word. -/
theorem not_run_of_word {word : Word} (good : word.Good options) (rest : List UInt8) :
    ¬ IsRun options (word.run ++ word.token ++ rest) := by
  intro isRun
  obtain ⟨byte, token, isToken⟩ := List.exists_cons_of_ne_nil good.nonempty
  have isWhitespace := isRun byte (by rw [isToken]; simp)
  exact good.head [] byte (by rw [isToken]; rfl) isWhitespace

/-- The words of a text. -/
theorem GoodWords.unique {words words' : List Word} {last last' : List UInt8}
    (good : GoodWords options words) (good' : GoodWords options words')
    (isRun : IsRun options last) (isRun' : IsRun options last')
    (same : textOf words ++ last = textOf words' ++ last') : words = words' := by
  induction words generalizing words' with
  | nil =>
    cases words' with
    | nil => rfl
    | cons word' words' =>
      rw [textOf_nil, List.nil_append, textOf_cons, List.append_assoc] at same
      rw [same] at isRun
      exact absurd isRun (not_run_of_word (good'.good word' List.mem_cons_self) _)
  | cons word words inductionHypothesis =>
    cases words' with
    | nil =>
      rw [textOf_nil, List.nil_append, textOf_cons, List.append_assoc] at same
      rw [← same] at isRun'
      exact absurd isRun' (not_run_of_word (good.good word List.mem_cons_self) _)
    | cons word' words' =>
      rw [textOf_cons, textOf_cons, List.append_assoc, List.append_assoc, List.append_assoc,
        List.append_assoc] at same
      have isGood := good.good word List.mem_cons_self
      have isGood' := good'.good word' List.mem_cons_self
      obtain ⟨sameRun, same⟩ := category_inj same isGood.run isGood'.run (isGood.head _)
        (isGood'.head _)
      obtain ⟨sameToken, same⟩ := token_inj good good' isRun isRun' same
      rw [inductionHypothesis good.tail good'.tail same]
      obtain ⟨run, token⟩ := word
      obtain ⟨run', token'⟩ := word'
      dsimp only at sameRun sameToken
      rw [sameRun, sameToken]

/-! ### Reading the output again -/

/-- Whether an output has the same words as the old file, by the numbers that `readFile` gives to
the words of both. -/
def sameWords (options : Options) (locale : Locale) (old output : List UInt8)
    (charData : CharData) : Except Failure Bool := do
  let (_, oldReading) ← readFile options locale old charData Hashtable.empty
  let (_, reading) ← readFile options locale output oldReading.charData oldReading.hashtable
  .ok (reading.diffTokens == oldReading.diffTokens)

section Again

variable {old oldLast : List UInt8} {oldWords : List Word} {oldReading : Reading}

/-- The same keys get the same numbers. -/
theorem Filed.same_ids (oldFiled : Filed options locale [] old oldWords oldLast oldReading)
    {output : List UInt8} {words : List Word} {last : List UInt8} {reading : Reading}
    (filed : Filed options locale (internAll [] (keysOf options locale oldWords)) output words last
      reading) (keys : keysOf options locale words = keysOf options locale oldWords) :
    reading.diffTokens = oldReading.diffTokens := by
  rw [filed.ids, oldFiled.ids, keys]
  refine List.map_congr_left fun key isKey => ?_
  exact idxOf_internAll (mem_internAll isKey []) _

/-- Words that were printed one behind the other are found again if they are apart. -/
theorem sameWords_of_apart (singleByte : options.utf8Mode = false)
    (noParagraphs : options.paraDelim = false) {charData : CharData} {oldCount : Nat}
    (reads : readFile options locale old charData Hashtable.empty = .ok (oldCount, oldReading))
    (oldFiled : Filed options locale [] old oldWords oldLast oldReading) {printed : List Word}
    {last : List UInt8} (good : GoodWords options printed) (isRun : IsRun options last)
    (keys : keysOf options locale printed = keysOf options locale oldWords)
    (room : old.length + (textOf printed ++ last).length + 1 < valueMax) :
    sameWords options locale old (textOf printed ++ last) charData = .ok true := by
  have few := internAll_length_le [] (keysOf options locale oldWords)
  have fewOld := oldFiled.few
  rw [List.length_nil, Nat.zero_add, keysOf_length] at few
  obtain ⟨count, reading, words, last', readsAgain, filed, -⟩ :=
    @readFile_filed options locale singleByte (textOf printed ++ last) oldReading.charData _ _
      oldFiled.interns (by omega)
  have isPrinted := (filed.good noParagraphs).unique good filed.isRun isRun
    (filed.text noParagraphs)
  have same := oldFiled.same_ids filed (by rw [isPrinted, keys])
  rw [sameWords, reads, ok_bind]
  dsimp only
  rw [readsAgain, ok_bind, same, beq_self_eq_true]

end Again

/-! ### Words that stay apart -/

/-- Inputs whose words stay apart. No plain character of the new file stands directly behind a
delimiter or, with the output of wdiff, at its start. Folding the case makes no delimiter of another
character, and whitespace has no bytes that would have to be escaped. -/
structure Separable (options : Options) (locale : Locale) (new : List UInt8) : Prop where
  behind : new.IsChain fun first second =>
    byteCategory options first = .delimiter → byteCategory options second ≠ .other
  first : options.wdiffOutput = true → ∀ byte ∈ new.head?, byteCategory options byte ≠ .other
  folds : options.ignoreCase = true → ∀ byte,
    byteCategory options (locale.toLower byte) = .delimiter ↔ byteCategory options byte = .delimiter
  unescaped : byteCategory options 0 ≠ .whitespace ∧ byteCategory options 1 ≠ .whitespace

section Separable

variable {new : List UInt8}

/-- Words with the same key are both plain or both delimiters. -/
theorem Separable.plain (separable : Separable options locale new) {token' : List UInt8}
    (isToken : IsDelimiter options token' ∨ IsPlain options token')
    (same : comparisonKey options locale token = comparisonKey options locale token')
    (plain : IsPlain options token) : IsPlain options token' := by
  rcases isToken with ⟨byte', rfl, isDelimiter⟩ | isPlain
  · obtain ⟨byte, rfl⟩ : ∃ byte, token = [byte] := List.length_eq_one_iff.mp (by
      simpa [comparisonKey] using congrArg List.length same)
    have isOther := plain.2 byte List.mem_cons_self
    simp only [comparisonKey, List.map_cons, List.map_nil, List.cons.injEq, and_true] at same
    by_cases ignores : options.ignoreCase = true
    · rw [if_pos ignores, if_pos ignores] at same
      rw [← separable.folds ignores, ← same, separable.folds ignores, isOther] at isDelimiter
      contradiction
    · rw [if_neg ignores, if_neg ignores] at same
      rw [← same, isOther] at isDelimiter
      contradiction
  · exact isPlain

theorem Separable.isRun (separable : Separable options locale new) {bytes : List UInt8}
    (isRun : IsRun options bytes) : Unescaped bytes := by
  intro byte isIn
  have isWhitespace := isRun byte isIn
  constructor
  · rintro rfl
    exact separable.unescaped.1 isWhitespace
  · rintro rfl
    exact separable.unescaped.2 isWhitespace

/-- A plain word of the new file has whitespace before it, unless it is the first one. -/
theorem plain_behind {words : List Word} {last : List UInt8} (good : GoodWords options words)
    (behind : (textOf words ++ last).IsChain fun first second =>
      byteCategory options first = .delimiter → byteCategory options second ≠ .other) :
    words.IsChain fun _ word => IsPlain options word.token → word.run ≠ [] := by
  induction words with
  | nil => exact .nil
  | cons word words inductionHypothesis =>
    cases words with
    | nil => exact .singleton _
    | cons next words =>
      rw [textOf_cons, List.append_assoc] at behind
      refine .cons_cons (fun plain empty => ?_)
        (inductionHypothesis good.tail behind.right_of_append)
      rcases (good.good word List.mem_cons_self).token with ⟨byte, isToken, isDelimiter⟩ | plain'
      · obtain ⟨byte', token, isToken'⟩ := List.exists_cons_of_ne_nil plain.1
        rw [textOf_cons, isToken, isToken', empty, List.append_assoc] at behind
        exact (List.isChain_append_cons_cons.mp behind).2.1 isDelimiter
          (plain.2 byte' (isToken' ▸ List.mem_cons_self))
      · exact (List.isChain_cons_cons.mp good.apart).1 plain' plain empty

end Separable

/-! ### The words that are printed -/

/-- The options of `dwfilter`. -/
structure Filtering (options : Options) : Prop extends Unadorned options where
  printDeleted : options.printDeleted = true
  printCommon : options.printCommon = true
  printAdded : options.printAdded = false
  delStart : options.delStart = []
  delStop : options.delStop = []

/-- What the texts are made of: the runs of whitespace, the tokens of words, and words with the
same number have the same key. Words of the old file have whitespace between them where they need
it, and words of the new file have it before them. -/
structure Spelled (options : Options) (locale : Locale) (texts : Side → Text) : Prop where
  run : ∀ side, ∀ piece ∈ (texts side).runs, ∃ bytes, piece = bytes.map .single ∧
    IsRun options bytes
  token : ∀ side, ∀ piece ∈ (texts side).tokens,
    IsDelimiter options (pieceText piece) ∨ IsPlain options (pieceText piece)
  key : ∀ {i j : Nat} {oldPiece newPiece}, (texts .old).tokens[i]? = some oldPiece →
    (texts .new).tokens[j]? = some newPiece → (texts .old).ids[i]? = (texts .new).ids[j]? →
    comparisonKey options locale (pieceText oldPiece) =
      comparisonKey options locale (pieceText newPiece)
  apart : ∀ {i : Nat} {piece next run}, (texts .old).tokens[i]? = some piece →
    (texts .old).tokens[i + 1]? = some next → (texts .old).runs[i + 1]? = some run →
    IsPlain options (pieceText piece) → IsPlain options (pieceText next) → pieceText run ≠ []
  behind : ∀ {j : Nat} {piece run}, (texts .new).tokens[j]? = some piece →
    (texts .new).runs[j]? = some run → IsPlain options (pieceText piece) →
    j ≠ 0 ∨ options.wdiffOutput = true → pieceText run ≠ []

/-- The key of a token that was taken. -/
def Taking.key (options : Options) (locale : Locale) : Taking → Option (List UInt8)
  | .token _ (some piece) => some (comparisonKey options locale (pieceText piece))
  | _ => none

/-- The keys of the tokens that were taken from the old file. -/
def oldKeys (options : Options) (locale : Locale) (events : List Event) : List (List UInt8) :=
  (takings .old events).filterMap (Taking.key options locale)

/-- How much was taken from both files. -/
def takenLength (events : List Event) : Nat :=
  (takenText .old events).length + (takenText .new events).length

/-- How much is in the buffer of a file. -/
def InputFile.held (file : InputFile) : Nat :=
  if file.whitespaceBufferUsed then file.whitespaceBuffer.length else 0

def Printing.held (state : Printing) : Nat := state.oldFile.held + state.newFile.held

/-- If the whitespace of the next word of the old file was taken, and there is any, it was printed
or is in the buffer. -/
def Parted (pending : List UInt8) (state : Printing) : Prop :=
  ∀ piece, (takings .old state.events).getLast? = some (.run piece) →
    (Taking.run piece).text ≠ [] → pending ≠ [] ∨ state.oldFile.held ≠ 0

/-- Until a word of the new file is handled, a word that was printed is followed by the whitespace
of the old file. -/
def Settled (options : Options) (locale : Locale) (state : Printing) : Prop :=
  takings .new state.events = [] → oldKeys options locale state.events = [] ∨
    state.lastWasDelete = true ∨ options.wdiffOutput = true

/-- The words that were printed are those that were taken from the old file, as far as they are
compared. What was printed behind them, and what is in the buffer of the old file, is whitespace.
Nothing is printed twice. -/
structure Filters (options : Options) (locale : Locale) (width : Nat) (state : Printing) :
    Prop where
  shown : ∃ printed pending, written width state.screen.output = textOf printed ++ pending ∧
    GoodWords options printed ∧ IsRun options pending ∧
    keysOf options locale printed = oldKeys options locale state.events ∧ Parted pending state
  buffer : state.oldFile.whitespaceBufferUsed = true →
    IsRun options state.oldFile.whitespaceBuffer
  few : (written width state.screen.output).length + state.held ≤ takenLength state.events

section Filters

variable {texts : Side → Text} {hashMax width : Nat} {tracks : Side → Track}
  {calls : List (Side × Mode)} {state after : Printing} {new : List UInt8}

theorem takenLength_snoc (events : List Event) (isOn : event.on side = some taking)
    (isAside : event.on side.other = none) :
    takenLength (events ++ [event]) = takenLength events + taking.text.length := by
  have something : takenText side [event] = taking.text := by
    simp only [takenText, takings, List.filterMap_cons, List.filterMap_nil, isOn]
    exact List.append_nil _
  have nothing : takenText side.other [event] = [] := by
    simp only [takenText, takings, List.filterMap_cons, List.filterMap_nil, isAside]
    rfl
  unfold takenLength
  rw [takenText_append, takenText_append, List.length_append, List.length_append]
  cases side with
  | old =>
    rw [something, show takenText .new [event] = [] from nothing, List.length_nil]
    omega
  | new =>
    rw [something, show takenText .old [event] = [] from nothing, List.length_nil]
    omega

theorem isRun_append {run more : List UInt8} (isRun : IsRun options run)
    (isRun' : IsRun options more) : IsRun options (run ++ more) := fun byte isIn =>
  (List.mem_append.mp isIn).elim (isRun byte) (isRun' byte)

theorem oldKeys_append (events more : List Event) :
    oldKeys options locale (events ++ more) =
      oldKeys options locale events ++ oldKeys options locale more := by
  rw [oldKeys, takings_append, List.filterMap_append]
  rfl

theorem oldKeys_run (events : List Event) (side : Side) (piece : Option (List ReadChar)) :
    oldKeys options locale (events ++ [.run side piece]) = oldKeys options locale events := by
  rw [oldKeys_append]
  cases side <;> exact List.append_nil _

/-- The bytes of a run. -/
theorem Spelled.exists_run (spelled : Spelled options locale texts) {side : Side}
    (le : (tracks side).modes.length ≤ (texts side).ids.length) :
    ∃ bytes, (texts side).run (tracks side) = bytes.map .single ∧ IsRun options bytes := by
  have isIn : (tracks side).modes.length < (texts side).runs.length := by
    rw [(texts side).runs_length]
    omega
  rw [Text.run, List.getElem?_eq_getElem isIn]
  exact spelled.run side _ (List.getElem_mem isIn)

theorem Spelled.isRun (spelled : Spelled options locale texts) {side : Side}
    (le : (tracks side).modes.length ≤ (texts side).ids.length) :
    IsRun options (pieceText ((texts side).run (tracks side))) := by
  obtain ⟨bytes, isBytes, isRun⟩ := @Spelled.exists_run _ _ _ tracks spelled side le
  rwa [isBytes, pieceText_single]

/-- A file in which nothing was loaded, or which has its buffer still. -/
theorem held_setFile {side : Side} {file : InputFile}
    (used : file.whitespaceBufferUsed = (state.file side).whitespaceBufferUsed)
    (same : file.whitespaceBuffer = (state.file side).whitespaceBuffer) :
    (state.setFile side file).held = state.held ∧
      (state.setFile side file).oldFile.whitespaceBufferUsed =
        state.oldFile.whitespaceBufferUsed ∧
      (state.setFile side file).oldFile.whitespaceBuffer = state.oldFile.whitespaceBuffer := by
  have isHeld : file.held = (state.file side).held := by
    rw [InputFile.held, InputFile.held, used, same]
  cases side with
  | old => exact ⟨congrArg (· + state.newFile.held) isHeld, used, same⟩
  | new => exact ⟨congrArg (state.oldFile.held + ·) isHeld, rfl, rfl⟩

theorem oldKeys_new (events : List Event) (mode : Mode) (piece : Option (List ReadChar)) :
    oldKeys options locale (events ++ [.token .new mode piece]) =
      oldKeys options locale events := by
  rw [oldKeys_append]
  exact List.append_nil _

theorem TookCommon.oldKeys (took : TookCommon texts tracks state after) :
    Dwdiff.oldKeys options locale after.events = Dwdiff.oldKeys options locale state.events ++
      ((texts .old).tokens[(tracks .old).modes.length]?.map fun piece =>
        comparisonKey options locale (pieceText piece)).toList := by
  rw [Dwdiff.oldKeys, Dwdiff.oldKeys, took.takings, List.filterMap_append]
  cases (texts .old).tokens[(tracks .old).modes.length]? <;> rfl

theorem TookCommon.held (took : TookCommon texts tracks state after) : after.held = state.held := by
  have file : ∀ side, (after.file side).held = (state.file side).held := fun side => by
    rw [InputFile.held, InputFile.held, (took.buffers side).1, (took.buffers side).2]
  exact congrArg₂ (· + ·) (file .old) (file .new)

theorem takings_snoc (events : List Event) (isOn : event.on side = some taking) :
    takings side (events ++ [event]) = takings side events ++ [taking] := by
  rw [takings_append]
  simp [takings, isOn]

theorem takings_aside (events : List Event) (isAside : event.on side = none) :
    takings side (events ++ [event]) = takings side events := by
  rw [takings_append]
  simp [takings, isAside]

/-- The key of the last word of the old file that was taken. -/
theorem Represents.previous
    (represents : Represents options locale texts hashMax tracks calls state)
    (le : (tracks .old).modes.length ≤ (texts .old).ids.length) {key : List UInt8}
    (isLast : (oldKeys options locale state.events).getLast? = some key) :
    ∃ i piece, (tracks .old).modes.length = i + 1 ∧ (texts .old).tokens[i]? = some piece ∧
      comparisonKey options locale (pieceText piece) = key := by
  have isTold := (represents.files .old).isTold
  have pending :
      ((tracks .old).pending (texts .old)).filterMap (Taking.key options locale) = [] := by
    unfold Track.pending
    split <;> rfl
  rw [oldKeys, isTold, List.filterMap_append, pending, List.append_nil] at isLast
  rcases List.eq_nil_or_concat' (tracks .old).modes with none | ⟨modes, mode, isModes⟩
  · rw [none] at isLast
    contradiction
  · rw [isModes, List.length_append, List.length_singleton] at le
    have isIn : modes.length < (texts .old).tokens.length := by
      rw [(texts .old).tokens_length]
      omega
    rw [isModes, told_append, List.filterMap_append, List.getElem?_eq_getElem isIn] at isLast
    refine ⟨modes.length, _, by rw [isModes, List.length_append]; rfl,
      List.getElem?_eq_getElem isIn, ?_⟩
    change (_ ++ [comparisonKey options locale
      (pieceText (texts .old).tokens[modes.length])]).getLast? = _ at isLast
    rw [List.getLast?_concat] at isLast
    exact Option.some.inj isLast

variable (filters : Filters options locale width state)

include filters

/-- Whitespace is printed, or nothing. -/
theorem Filters.run {text : List UInt8} (wrote : Wrote width state.screen text after.screen)
    (isRun : IsRun options text)
    (keys : oldKeys options locale after.events = oldKeys options locale state.events)
    (parted : ∀ pending, Parted pending state → Parted (pending ++ text) after)
    (buffer : after.oldFile.whitespaceBufferUsed = true →
      IsRun options after.oldFile.whitespaceBuffer)
    (few : text.length + after.held + takenLength state.events ≤
      state.held + takenLength after.events) : Filters options locale width after := by
  obtain ⟨printed, pending, isText, good, isPending, isKeys, isParted⟩ := filters.shown
  have enough := filters.few
  refine ⟨⟨printed, pending ++ text, ?_, good, isRun_append isPending isRun,
    isKeys.trans keys.symm, parted pending isParted⟩, buffer, ?_⟩
  · rw [wrote, isText, List.append_assoc]
  · rw [wrote, List.length_append]
    omega

/-- A word is printed, behind whitespace if it could run together with the one before it. -/
theorem Filters.word {text token : List UInt8}
    (wrote : Wrote width state.screen (text ++ token) after.screen) (isRun : IsRun options text)
    (isToken : IsDelimiter options token ∨ IsPlain options token)
    (apart : ∀ previous, IsPlain options previous → IsPlain options token →
      (oldKeys options locale state.events).getLast? =
        some (comparisonKey options locale previous) →
      ∀ pending, Parted pending state → pending ++ text ≠ [])
    (keys : oldKeys options locale after.events =
      oldKeys options locale state.events ++ [comparisonKey options locale token])
    (ends : ∃ before mode piece, takings .old after.events = before ++ [.token mode piece])
    (buffer : after.oldFile.whitespaceBufferUsed = true →
      IsRun options after.oldFile.whitespaceBuffer)
    (few : (text ++ token).length + after.held + takenLength state.events ≤
      state.held + takenLength after.events) : Filters options locale width after := by
  obtain ⟨printed, pending, isText, good, isPending, isKeys, isParted⟩ := filters.shown
  obtain ⟨before, mode, piece, ends⟩ := ends
  have enough := filters.few
  refine ⟨⟨printed ++ [⟨pending ++ text, token⟩], [], ?_, ⟨?_, ?_⟩, nofun, ?_, ?_⟩, buffer, ?_⟩
  · rw [wrote, isText, textOf_append, textOf_singleton]
    simp only [List.append_assoc, List.append_nil]
  · intro word isIn
    rcases List.mem_append.mp isIn with earlier | isLast
    · exact good.good word earlier
    · rw [List.mem_singleton.mp isLast]
      exact ⟨isRun_append isPending isRun, isToken⟩
  · refine List.isChain_append.mpr ⟨good.apart, .singleton _, ?_⟩
    rintro previous isPrevious _ ⟨⟩ plain plain'
    refine apart previous.token plain plain' ?_ pending isParted
    rw [← isKeys, keysOf, List.getLast?_map, List.getLast?_map, isPrevious]
    rfl
  · rw [keys, ← isKeys]
    simp [keysOf]
  · intro run isLast
    rw [ends, List.getLast?_concat] at isLast
    simp at isLast
  · rw [wrote, List.length_append]
    omega

/-- A piece of whitespace is taken, or a token that is not printed. -/
theorem Filters.took {screen : Screen} {file : InputFile} {text : List UInt8}
    (isOn : event.on side = some taking) (isAside : event.on side.other = none)
    (used : file.whitespaceBufferUsed = (state.file side).whitespaceBufferUsed)
    (same : file.whitespaceBuffer = (state.file side).whitespaceBuffer)
    (keys : oldKeys options locale (state.events ++ [event]) = oldKeys options locale state.events)
    (wrote : Wrote width state.screen text screen) (isRun : IsRun options text)
    (whole : side = .old → text = taking.text) (short : text.length ≤ taking.text.length) :
    Filters options locale width
      ((({ state with screen := screen } : Printing).setFile side file).record event) := by
  obtain ⟨isHeld, isUsed, isBuffer⟩ :=
    @held_setFile { state with screen := screen } side file used same
  have events : ((({ state with screen := screen } : Printing).setFile side file).record
      event).events = state.events ++ [event] := by cases side <;> rfl
  refine filters.run (by cases side <;> exact wrote) isRun (by rw [events, keys])
    (fun pending parted piece => ?_) (fun isTrue => ?_) ?_
  · rw [events]
    intro isLast some
    cases side with
    | old =>
      rw [takings_snoc state.events isOn, List.getLast?_concat] at isLast
      obtain rfl := Option.some.inj isLast
      rw [whole rfl]
      exact Or.inl (List.append_ne_nil_of_right_ne_nil _ some)
    | new =>
      rw [show takings .old (state.events ++ [event]) = _ from
        takings_aside state.events isAside] at isLast
      exact (parted piece isLast some).imp_left fun isSome =>
        List.append_ne_nil_of_left_ne_nil isSome _
  · show IsRun options (Printing.setFile _ side file).oldFile.whitespaceBuffer
    rw [isBuffer]
    exact filters.buffer (isUsed.symm.trans isTrue)
  · have sameHeld : ((({ state with screen := screen } : Printing).setFile side file).record
      event).held = state.held := isHeld
    rw [sameHeld, events, takenLength_snoc state.events isOn isAside]
    omega

/-- The whitespace of the next word is loaded. -/
theorem Filters.loaded (side : Side) (unused : (state.file side).whitespaceBufferUsed = false)
    {bytes : List UInt8} (isRun : (texts side).run (tracks side) = bytes.map .single)
    (isBytes : IsRun options bytes) (stream : Stream) :
    Filters options locale width (state.loaded texts tracks side bytes stream) := by
  have isText : (Taking.run (texts side).runs[(tracks side).modes.length]?).text = bytes := by
    rw [Taking.text, ← Text.run, isRun, pieceText_single]
  have nothing : (state.file side).held = 0 := by
    rw [InputFile.held, unused]
    rfl
  have length := takenLength_snoc state.events (Event.on_run side _)
    (Event.on_run_other side (texts side).runs[(tracks side).modes.length]?)
  rw [isText] at length
  cases side with
  | old =>
    refine @Filters.run _ _ _ _ _ filters [] (Wrote.refl _) (List.forall_mem_nil _)
      (oldKeys_run _ _ _) (fun pending parted piece isLast some => ?_) (fun _ => isBytes) ?_
    · rw [show takings .old (state.loaded texts tracks .old bytes stream).events = _ from
        takings_snoc state.events (Event.on_run .old _), List.getLast?_concat] at isLast
      obtain rfl := Taking.run.inj (Option.some.inj isLast)
      exact Or.inr (List.length_pos_iff.mpr (isText ▸ some)).ne'
    show 0 + (bytes.length + state.newFile.held) + takenLength state.events ≤
      (state.file .old).held + state.newFile.held + takenLength (state.events ++ [_])
    omega
  | new =>
    refine @Filters.run _ _ _ _ _ filters [] (Wrote.refl _) (List.forall_mem_nil _)
      (oldKeys_run _ _ _) (fun pending parted piece isLast => ?_) filters.buffer ?_
    · rw [List.append_nil]
      refine parted piece (Eq.trans ?_ isLast)
      exact congrArg List.getLast? (takings_aside state.events (Event.on_run_other .new _)).symm
    show 0 + (state.oldFile.held + bytes.length) + takenLength state.events ≤
      state.oldFile.held + (state.file .new).held + takenLength (state.events ++ [_])
    omega

/-- A change of the screen that writes nothing. -/
theorem Filters.onScreen {change : Screen → Screen}
    (silent : written width (change state.screen).output = written width state.screen.output) :
    Filters options locale width (state.onScreen change) := by
  obtain ⟨shown, buffer, few⟩ := filters
  rw [← silent] at shown few
  exact ⟨shown, buffer, few⟩

variable (filtering : Filtering options) (spelled : Spelled options locale texts)
  (represents : Represents options locale texts hashMax tracks calls state)

include filtering spelled represents

theorem filters_whitespace (singleByte : options.utf8Mode = false) (side : Side) (mode : Mode)
    (loaded : (tracks side).taken = (tracks side).buffered)
    (le : (tracks side).modes.length ≤ (texts side).ids.length) :
    Meets OfText (Filters options locale width)
      (handleNextWhitespace options locale side (shows options side) mode state) := by
  have isBuffered := (represents.files side).buffered
  cases buffered : (tracks side).buffered with
  | false =>
    refine (handleNextWhitespace_wrote width filtering.toUnadorned represents
      ⟨loaded.trans buffered, buffered⟩ le _ _).mono ?_
    rintro final ⟨screen, stream, wrote, rfl⟩
    refine filters.took (Event.on_run side _) (Event.on_run_other side _) rfl rfl
      (oldKeys_run _ _ _) wrote ?_ ?_ ?_
    · unfold shownText
      split
      · exact spelled.isRun le
      · exact isRun_nil
    · rintro rfl
      rw [shownText, show shows options .old = true from filtering.printDeleted, if_pos rfl]
      rfl
    · unfold shownText
      split
      · exact le_rfl
      · exact Nat.zero_le _
  | true =>
    rw [buffered] at isBuffered
    refine (handleNextWhitespace_buffer_wrote width filtering.toUnadorned singleByte isBuffered _
      _).mono ?_
    rintro final ⟨screen, wrote, rfl⟩
    cases side with
    | old =>
      rw [show shows options .old = true from filtering.printDeleted, if_pos rfl] at wrote
      have isHeld : state.oldFile.held = state.oldFile.whitespaceBuffer.length := if_pos isBuffered
      refine filters.run wrote (filters.buffer isBuffered) rfl
        (fun pending parted piece isLast some => Or.inl ?_) (absurd · Bool.false_ne_true) ?_
      · rcases parted piece isLast some with isSome | isHeld'
        · exact List.append_ne_nil_of_left_ne_nil isSome _
        · exact List.append_ne_nil_of_right_ne_nil _
            (List.length_pos_iff.mp (Nat.pos_of_ne_zero (isHeld ▸ isHeld')))
      show state.oldFile.whitespaceBuffer.length + (0 + state.newFile.held) +
        takenLength state.events ≤
          state.oldFile.held + state.newFile.held + takenLength state.events
      omega
    | new =>
      rw [show shows options .new = false from filtering.printAdded,
        if_neg Bool.false_ne_true] at wrote
      refine filters.run wrote isRun_nil rfl (fun pending parted => ?_) filters.buffer ?_
      · rw [List.append_nil]
        exact parted
      show 0 + (state.oldFile.held + 0) + takenLength state.events ≤
        state.oldFile.held + state.newFile.held + takenLength state.events
      omega

theorem filters_token (separable : Separable options locale new) (side : Side) (mode : Mode)
    (isTaken : (tracks side).taken = true) (unused : (tracks side).buffered = false)
    (below : (tracks side).modes.length < (texts side).ids.length) :
    Meets OfText (Filters options locale width)
      (handleNextToken options locale side (shows options side) mode state) := by
  refine (handleNextToken_wrote width filtering.toUnadorned represents (Nat.le_of_lt below) _
    _).mono ?_
  rintro final ⟨screen, stream, wrote, rfl⟩
  cases side with
  | old =>
    have isIn : (tracks .old).modes.length < (texts .old).tokens.length := by
      rwa [(texts .old).tokens_length]
    rw [show shows options .old = true from filtering.printDeleted, Text.token,
      List.getElem?_eq_getElem isIn] at wrote
    rw [List.getElem?_eq_getElem isIn]
    refine @Filters.word _ _ _ _ _ filters [] _ wrote (List.forall_mem_nil _)
      (spelled.token .old _ (List.getElem_mem isIn)) ?_ ?_
      ⟨_, _, _, takings_snoc state.events (Event.on_token .old _ _)⟩ filters.buffer ?_
    · intro previous plain plain' isLast pending parted
      obtain ⟨i, piece, isLength, isPiece, isKey⟩ := represents.previous (Nat.le_of_lt below) isLast
      have isRun : (tracks .old).modes.length < (texts .old).runs.length := by
        rw [(texts .old).runs_length]
        omega
      have plainPiece := separable.plain (spelled.token .old piece (List.mem_of_getElem? isPiece))
        isKey.symm plain
      have nonempty := spelled.apart isPiece
        (by rw [← isLength]; exact List.getElem?_eq_getElem isIn)
        (by rw [← isLength]; exact List.getElem?_eq_getElem isRun) plainPiece plain'
      have isTold := (represents.files .old).isTold
      rw [Track.pending, isTaken, if_pos rfl, List.getElem?_eq_getElem isRun] at isTold
      have unused' := (represents.files .old).buffered.trans unused
      have nothing : state.oldFile.held = 0 := if_neg (Bool.eq_false_iff.mp unused')
      rw [List.append_nil]
      exact (parted (some _) (by rw [isTold, List.getLast?_concat]) nonempty).resolve_right
        (· nothing)
    · show oldKeys options locale (state.events ++ [_]) = _
      rw [oldKeys_append]
      rfl
    · show _ + state.held + _ ≤ state.held + takenLength (state.events ++ [_])
      rw [takenLength_snoc state.events (Event.on_token .old _ _) (Event.on_token_other .old _ _)]
      show (pieceText _).length + _ + _ ≤ _ + (_ + (pieceText _).length)
      omega
  | new =>
    rw [show shows options .new = false from filtering.printAdded] at wrote
    exact filters.took (Event.on_token .new _ _) (Event.on_token_other .new _ _) rfl rfl
      (oldKeys_new _ _ _) wrote (List.forall_mem_nil _)
      (absurd · (by decide)) (Nat.zero_le _)

/-- A common word is that of the new file; its key is that of the word of the old file. At the end
of the files there is whitespace only. -/
theorem filters_common (separable : Separable options locale new)
    (settled : Settled options locale state) (fresh : ∀ side, (tracks side).Fresh)
    (le : ∀ side, (tracks side).modes.length ≤ (texts side).ids.length)
    (same : (texts .old).ids[(tracks .old).modes.length]? =
      (texts .new).ids[(tracks .new).modes.length]?) :
    Meets OfText (Filters options locale width)
      (handleCommonWord options locale options.printCommon state) := by
  obtain ⟨sideA, isSide⟩ := @exists_eq' _ (if !state.lastWasDelete then Side.new else Side.old)
  refine (handleCommonWord_wrote width filtering.toUnadorned filtering.printCommon represents fresh
    le isSide).mono ?_
  rintro final ⟨wrote, took⟩
  have isRun := @Spelled.isRun _ _ _ tracks spelled sideA (le sideA)
  have isKeys := @TookCommon.oldKeys options locale _ _ _ _ took
  have buffer : final.oldFile.whitespaceBufferUsed = true →
      IsRun options final.oldFile.whitespaceBuffer := fun used => by
    rw [show final.oldFile.whitespaceBuffer = _ from (took.buffers .old).2]
    exact filters.buffer ((took.buffers .old).1.symm.trans used)
  have few : (pieceText ((texts sideA).run (tracks sideA)) ++
      pieceText ((texts .new).token (tracks .new))).length + final.held +
        takenLength state.events ≤ state.held + takenLength final.events := by
    rw [took.held, takenLength, takenLength, took.takenText .old, took.takenText .new]
    simp only [List.length_append]
    cases sideA <;> omega
  rcases Nat.lt_or_ge (tracks .new).modes.length (texts .new).ids.length with inside | atEnd
  · have insideOld : (tracks .old).modes.length < (texts .old).ids.length := by
      rw [List.getElem?_eq_getElem inside] at same
      exact (List.getElem?_eq_some_iff.mp same).1
    have isNew : (tracks .new).modes.length < (texts .new).tokens.length := by
      rwa [(texts .new).tokens_length]
    have isOld : (tracks .old).modes.length < (texts .old).tokens.length := by
      rwa [(texts .old).tokens_length]
    have isToken : (texts .new).token (tracks .new) =
        (texts .new).tokens[(tracks .new).modes.length] := by
      rw [Text.token, List.getElem?_eq_getElem isNew]
      rfl
    rw [isToken] at wrote few
    have isKey := spelled.key (List.getElem?_eq_getElem isOld) (List.getElem?_eq_getElem isNew) same
    refine filters.word wrote isRun (spelled.token .new _ (List.getElem_mem isNew)) ?_ ?_
      ⟨_, _, _, (took.takings .old).trans (List.append_cons _ _ _)⟩ buffer few
    · intro previous plain plain' isLast pending parted
      refine List.append_ne_nil_of_right_ne_nil _ ?_
      have runs : ∀ side, (tracks side).modes.length < (texts side).runs.length := fun side => by
        rw [(texts side).runs_length]
        exact Nat.lt_succ_of_le (le side)
      have isText : (texts sideA).run (tracks sideA) =
          (texts sideA).runs.get ⟨_, runs sideA⟩ := by
        rw [Text.run, List.getElem?_eq_getElem (runs sideA)]
        rfl
      rw [isText]
      cases sideA with
      | old =>
        -- Behind a deletion the words of the old file follow each other.
        obtain ⟨i, piece, isLength, isPiece, isKey'⟩ := represents.previous (le .old) isLast
        exact spelled.apart isPiece (by rw [← isLength, List.getElem?_eq_getElem isOld])
          (by rw [← isLength]; exact List.getElem?_eq_getElem (runs .old))
          (separable.plain (spelled.token .old piece (List.mem_of_getElem? isPiece)) isKey'.symm
            plain)
          (separable.plain (spelled.token .old _ (List.getElem_mem isOld)) isKey.symm plain')
      | new =>
        refine spelled.behind (List.getElem?_eq_getElem isNew)
          (List.getElem?_eq_getElem (runs .new)) plain' ?_
        by_cases first : (tracks .new).modes.length = 0
        · have nothing : takings .new state.events = [] := by
            rw [(represents.files .new).isTold, Track.pending, (fresh .new).1,
              List.eq_nil_of_length_eq_zero first]
            rfl
          rcases settled nothing with none | deleted | wdiff
          · rw [none] at isLast
            contradiction
          · rw [deleted] at isSide
            contradiction
          · exact Or.inr wdiff
        · exact Or.inl first
    · rw [isKeys, List.getElem?_eq_getElem isOld, ← isKey]
      rfl
  · have isNil : pieceText ((texts .new).token (tracks .new)) = [] := by
      rw [Text.token, List.getElem?_eq_none (by rw [(texts .new).tokens_length]; exact atEnd)]
      rfl
    have atEndOld : (texts .old).tokens[(tracks .old).modes.length]? = none := by
      rw [List.getElem?_eq_none atEnd] at same
      rw [List.getElem?_eq_none_iff, (texts .old).tokens_length]
      exact List.getElem?_eq_none_iff.mp same
    rw [isNil, List.append_nil] at wrote few
    refine filters.run wrote isRun ?_ (fun pending _ piece isLast => ?_) buffer few
    · rw [isKeys, atEndOld]
      exact List.append_nil _
    · rw [took.takings .old, List.append_cons, List.getLast?_concat] at isLast
      simp at isLast

theorem filters_prepare (separable : Separable options locale new)
    (singleByte : options.utf8Mode = false) (fresh : ∀ side, (tracks side).Fresh)
    (below : ∀ side, (tracks side).modes.length < (texts side).ids.length) :
    Meets OfText (fun result => Filters options locale width result.2)
      (prepareWhitespace options locale state) := by
  choose bytes isRun isBytes using fun side =>
    @Spelled.exists_run _ _ _ tracks spelled side (Nat.le_of_lt (below side))
  have unused : ∀ side, (state.file side).whitespaceBufferUsed = false := fun side =>
    (represents.files side).buffered.trans (fresh side).2
  obtain ⟨sideA, isSide⟩ := @exists_eq' _ (if !state.lastWasDelete then Side.new else Side.old)
  refine (prepareWhitespace_rounds represents fresh (fun side => Nat.le_of_lt (below side))
    singleByte isRun (fun side => separable.isRun (isBytes side)) isSide
    (synchronizes_wrote width filtering.toUnadorned filtering.printCommon sideA sideA.other
      state.screen) (Wrote.refl _)).mono ?_
  have loadedOld := fun stream =>
    filters.loaded .old (unused .old) (isRun .old) (isBytes .old) stream
  have loadedBoth := fun streamOld streamNew =>
    (loadedOld streamOld).loaded .new (unused .new) (isRun .new) (isBytes .new) streamNew
  rintro result ⟨streamOld, ⟨-, rfl⟩ | ⟨streamNew, ⟨-, -, rfl⟩ |
    ⟨oldHas, newHas, screen, wrote, rfl⟩⟩⟩
  · exact loadedOld streamOld
  · exact loadedBoth streamOld streamNew
  · have oldLength := List.length_pos_of_mem oldHas
    have newLength := List.length_pos_of_mem newHas
    rw [isRun, pieceText_single] at wrote
    -- The space that is left for the new word takes the place of a line feed.
    have fits : (bytes sideA).length + (0 + 1) ≤ (bytes .old).length + (bytes .new).length := by
      cases sideA <;> omega
    have some : bytes sideA ≠ [] := by
      cases sideA with
      | old => exact List.ne_nil_of_mem oldHas
      | new => exact List.ne_nil_of_mem newHas
    exact (loadedBoth streamOld streamNew).run wrote (isBytes sideA) rfl
      (fun _ _ _ _ _ => Or.inl (List.append_ne_nil_of_right_ne_nil _ some)) (fun _ => nofun)
      (Nat.add_le_add_right fits _)

omit filters filtering spelled represents in
theorem told_eq_nil {text : Text} {modes : List Mode} (nothing : told text modes = []) :
    modes = [] := by
  rcases List.eq_nil_or_concat' modes with none | ⟨modes, mode, rfl⟩
  · exact none
  · rw [told_append] at nothing
    simp at nothing

omit filters filtering spelled represents in
theorem upholds_filters (filtering : Filtering options) (singleByte : options.utf8Mode = false)
    (separable : Separable options locale new) (spelled : Spelled options locale texts) :
    Upholds options locale texts hashMax
      (fun state => Filters options locale options.lineNumbers state ∧
        Settled options locale state) (Filters options locale options.lineNumbers) where
  enter := And.left
  common := fun represents fresh le same both =>
    ((filters_common both.1 filtering spelled represents separable both.2 fresh le same).and
      (handleCommonWord_wrote options.lineNumbers filtering.toUnadorned filtering.printCommon
        represents fresh le rfl)).mono fun final ⟨filters, _, took⟩ =>
          ⟨filters, fun nothing => by simp [took.takings] at nothing⟩
  prepare := fun represents fresh below _ both =>
    filters_prepare both.1 filtering spelled represents separable singleByte fresh below
  whitespace := fun side first represents loaded below filters =>
    filters_whitespace filters filtering spelled represents singleByte side _ loaded
      (Nat.le_of_lt below)
  token := fun side represents isTaken unused below filters =>
    filters_token filters filtering spelled represents separable side _ isTaken unused below
  advance := by
    intro state side
    refine ⟨fun both => ⟨?_, ?_⟩, fun filters => ?_⟩
    · obtain ⟨shown, buffer, few⟩ := both.1
      cases side <;> exact ⟨shown, buffer, few⟩
    · cases side <;> exact both.2
    · obtain ⟨shown, buffer, few⟩ := filters
      cases side <;> exact ⟨shown, buffer, few⟩
  start := by
    intro state side isShown filters
    refine filters.onScreen ?_
    cases side with
    | old =>
      rw [startWords_silent filtering.toUnadorned (by exact filtering.delStart),
        doPostLinefeed_output filtering.toUnadorned.unmarked]
    | new =>
      rw [show shows options .new = false from filtering.printAdded] at isShown
      contradiction
  stop := by
    intro state side isShown filters
    refine filters.onScreen ?_
    cases side with
    | old =>
      rw [stopWords_silent filtering.toUnadorned (by exact filtering.delStop),
        doPostLinefeed_output filtering.toUnadorned.unmarked]
    | new =>
      rw [show shows options .new = false from filtering.printAdded] at isShown
      contradiction
  finish := by
    intro tracks calls state command change represents fresh printed isDel filters
    have marked := filters.onScreen (show written _ ((fun screen => if options.needMarkers then
        { screen.emit (.puts ("\n" ++ markerLine)) with lastWasLinefeed := true } else screen)
          state.screen).output = _ by
      rw [filtering.needMarkers]
      rfl)
    refine ⟨⟨marked.shown, marked.buffer, marked.few⟩, fun nothing => Or.inr ?_⟩
    have isTold := (represents.files .new).isTold.symm.trans nothing
    have none := told_eq_nil (List.append_eq_nil_iff.mp isTold).1
    obtain rfl : command = .del := by_contra fun other => isDel other none
    cases wdiff : options.wdiffOutput with
    | true => exact Or.inr rfl
    | false =>
      left
      simp [finishChange, filtering.printDeleted, wdiff]
  stepped := fun _ _ _ both => ⟨⟨both.1.shown, both.1.buffer, both.1.few⟩, both.2⟩
  ended := fun both => ⟨⟨both.1.shown, both.1.buffer, both.1.few⟩, both.2⟩
  marked := fun marks => by
    rw [filtering.needMarkers] at marks
    contradiction
  noticed := fun both => ⟨⟨both.1.shown, both.1.buffer, both.1.few⟩, both.2⟩

end Filters

/-! ### Whole files -/

section Files

variable {known : List (List UInt8)} {input : List UInt8} {words : List Word} {last : List UInt8}
  {reading : Reading} (filed : Filed options locale known input words last reading)

theorem Filed.token_getElem? (i : Nat) :
    filed.toText.tokens[i]? = words[i]?.map fun word => word.token.map .single := by
  show ((words.map Word.token).map (List.map ReadChar.single))[i]? = _
  rw [List.getElem?_map, List.getElem?_map, Option.map_map]
  rfl

theorem Filed.run_getElem? {i : Nat} {word : Word} (isWord : words[i]? = some word) :
    filed.toText.runs[i]? = some (word.run.map .single) := by
  have inside := (List.getElem?_eq_some_iff.mp isWord).1
  show ((words.map Word.run ++ [last]).map (List.map ReadChar.single))[i]? = _
  rw [List.getElem?_map, List.getElem?_append_left (by rwa [List.length_map]), List.getElem?_map,
    isWord]
  rfl

/-- A word and its whitespace. -/
theorem Filed.exists_word {i : Nat} {piece : List ReadChar}
    (isPiece : filed.toText.tokens[i]? = some piece) :
    ∃ word, words[i]? = some word ∧ pieceText piece = word.token ∧
      ∀ run, filed.toText.runs[i]? = some run → pieceText run = word.run := by
  obtain ⟨word, isWord, rfl⟩ :=
    Option.map_eq_some_iff.mp ((filed.token_getElem? i).symm.trans isPiece)
  refine ⟨word, isWord, pieceText_single _, fun run isRun => ?_⟩
  obtain rfl := Option.some.inj ((filed.run_getElem? isWord).symm.trans isRun)
  exact pieceText_single _

/-- The keys of so many words of a file. -/
theorem Filed.told_keys (modes : List Mode) :
    (told filed.toText modes).filterMap (Taking.key options locale) =
      (keysOf options locale words).take modes.length := by
  induction modes using List.reverseRecOn with
  | nil => rfl
  | append_singleton modes mode inductionHypothesis =>
    rw [told_append, List.filterMap_append, inductionHypothesis, List.length_append,
      List.length_singleton, List.take_add_one, keysOf_getElem?, filed.token_getElem?]
    cases words[modes.length]? with
    | none => rfl
    | some word =>
      show _ ++ [comparisonKey options locale (pieceText (word.token.map .single))] = _
      rw [pieceText_single]
      rfl

end Files

section Prepared

variable {old new oldLast newLast : List UInt8} {oldWords newWords : List Word}
  {oldReading newReading : Reading}

theorem Prepared.spelled (prepared : Prepared options locale old new oldWords newWords oldLast
    newLast oldReading newReading) (noParagraphs : options.paraDelim = false)
    (separable : Separable options locale new) : Spelled options locale prepared.texts := by
  have run : ∀ {known input words last reading},
      (filed : Filed options locale known input words last reading) →
      ∀ piece ∈ filed.toText.runs, ∃ bytes, piece = bytes.map .single ∧ IsRun options bytes := by
    intro known input words last reading filed piece isPiece
    obtain ⟨bytes, isBytes, rfl⟩ := List.mem_map.mp isPiece
    refine ⟨bytes, rfl, ?_⟩
    rcases List.mem_append.mp isBytes with isRun | isLast
    · obtain ⟨word, isWord, rfl⟩ := List.mem_map.mp isRun
      exact filed.runs word isWord
    · rw [List.mem_singleton.mp isLast]
      exact filed.isRun
  have token : ∀ {known input words last reading},
      (filed : Filed options locale known input words last reading) →
      ∀ piece ∈ filed.toText.tokens,
        IsDelimiter options (pieceText piece) ∨ IsPlain options (pieceText piece) := by
    intro known input words last reading filed piece isPiece
    obtain ⟨bytes, isBytes, rfl⟩ := List.mem_map.mp isPiece
    obtain ⟨word, isWord, rfl⟩ := List.mem_map.mp isBytes
    rw [pieceText_single]
    exact ((filed.good noParagraphs).good word isWord).token
  refine ⟨fun side => ?_, fun side => ?_, ?_, ?_, ?_⟩
  · cases side with
    | old => exact run prepared.oldFiled
    | new => exact run prepared.newFiled
  · cases side with
    | old => exact token prepared.oldFiled
    | new => exact token prepared.newFiled
  · intro i j oldPiece newPiece isOld isNew same
    obtain ⟨oldWord, isOldWord, oldText, -⟩ := prepared.oldFiled.exists_word isOld
    obtain ⟨newWord, isNewWord, newText, -⟩ := prepared.newFiled.exists_word isNew
    rw [oldText, newText]
    exact prepared.same_key isOldWord isNewWord same
  · intro i piece next run isPiece isNext isRun
    obtain ⟨word, isWord, text, -⟩ := prepared.oldFiled.exists_word isPiece
    obtain ⟨word', isWord', text', runText⟩ := prepared.oldFiled.exists_word isNext
    rw [text, text', runText run isRun]
    obtain ⟨inside, rfl⟩ := List.getElem?_eq_some_iff.mp isWord'
    obtain ⟨-, rfl⟩ := List.getElem?_eq_some_iff.mp isWord
    exact List.isChain_iff_getElem.mp (prepared.oldFiled.good noParagraphs).apart i inside
  · intro j piece run isPiece isRun plain either
    obtain ⟨word, isWord, text, runText⟩ := prepared.newFiled.exists_word isPiece
    rw [text] at plain
    rw [runText run isRun]
    have good := prepared.newFiled.good noParagraphs
    have isNew := prepared.newFiled.text noParagraphs
    cases j with
    | zero =>
      intro empty
      obtain ⟨words, rfl⟩ : ∃ words, newWords = word :: words :=
        List.head?_eq_some_iff.mp (List.head?_eq_getElem? ▸ isWord)
      obtain ⟨byte, rest, isToken⟩ := List.exists_cons_of_ne_nil plain.1
      refine separable.first (either.resolve_left (· rfl)) byte ?_
        (plain.2 byte (isToken ▸ List.mem_cons_self))
      rw [← isNew, textOf_cons, empty, isToken]
      rfl
    | succ i =>
      obtain ⟨inside, rfl⟩ := List.getElem?_eq_some_iff.mp isWord
      exact List.isChain_iff_getElem.mp (plain_behind good (isNew.symm ▸ separable.behind)) i inside
        plain

end Prepared

/-- What `completeDefaults` makes of the defaults for `dwfilter`. -/
def filterOptions : Options :=
  { defaultOptions with
    delStart := [], delStop := [], addStart := [], addStop := [], printAdded := false }

/-- Whether the output for two files has the same words as the old one. -/
def reformats (options : Options) (locale : Locale) (old new : List UInt8) :
    Except Failure Bool := do
  let executed ← prepareAndExecuteDiff options locale old new ⟨0, [], [], []⟩ initialPrinting
  sameWords options locale old ((initialBuffers 0).performAll false options.lineNumbers
    executed.state.screen.output).output ⟨0, [], [], []⟩

end Dwdiff
