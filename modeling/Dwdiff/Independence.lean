/-
This file is about the hunks of one diff. Each of them is compared with the static
variables as the hunk before it has left them. It proves that the output is the one
that a fresh process would write for each hunk, when the variables that are looked
at are as in a fresh process before each comparison; and that they are before the
first one, and before all of them when no line numbers, colours, repeated markers
or context lines are asked for.
-/

import Dwdiff.Alike
import Dwdiff.Echo
import Dwdiff.SplitInput
import Dwdiff.Totals

namespace Dwdiff

open Diff Outcome

variable {old new : List UInt8} {options : Options} {locale : Locale} {contextLines : Nat}

/-! ### The last character of an earlier file -/

/-- Nothing but the last character differs. -/
def Recast (first second : Reading) : Prop := { first with charData := second.charData } = second

/-- And what is looked at of the last character is the same. -/
structure Kin {Key : Type} (key : CharData → Key) (first second : Reading) : Prop where
  recast : Recast first second
  char : key first.charData = key second.charData

/-- The functions of a table look at nothing else of the last character than its key, and only
`getNextChar` changes it. -/
structure DispatchTable.Blind {Key : Type} (key : CharData → Key) (table : DispatchTable) :
    Prop where
  getNextChar : ∀ {first second : Reading}, Recast first second →
    Agree (fun one other => one.1 = other.1 ∧ Recast one.2 other.2 ∧
        (one.1 = true → key one.2.charData = key other.2.charData))
      (table.getNextChar first) (table.getNextChar second)
  isWhitespace : ∀ {first second : CharData}, key first = key second →
    table.isWhitespace first = table.isWhitespace second
  isDelimiter : ∀ {first second : CharData}, key first = key second →
    table.isDelimiter first = table.isDelimiter second
  writeTokenChar : ∀ {first second : Reading}, Kin key first second →
    Agree (Kin key) (table.writeTokenChar first) (table.writeTokenChar second)
  writeWhitespaceChar : ∀ {first second : Reading}, Kin key first second →
    Agree (Kin key) (table.writeWhitespaceChar first) (table.writeWhitespaceChar second)
  writeWhitespaceDelimiter : ∀ (reading : Reading) (char : CharData),
    Agree (fun one other => { one with charData := char } = other ∧
        one.charData = reading.charData)
      (table.writeWhitespaceDelimiter reading)
      (table.writeWhitespaceDelimiter { reading with charData := char })

theorem dispatchSC_blind (options : Options) (locale : Locale) :
    DispatchTable.Blind CharData.singleChar (dispatchSC options locale) where
  getNextChar := by
    intro first second recast
    rw [← recast]
    show Agree _ (getNextCharSC first) (getNextCharSC { first with charData := second.charData })
    unfold getNextCharSC
    dsimp only
    rcases first.input.getChar with ⟨_ | byte, input⟩
    · exact ⟨rfl, rfl, nofun⟩
    · exact ⟨rfl, rfl, fun _ => rfl⟩
  isWhitespace := (dispatchSC_lawful options locale).isWhitespace
  isDelimiter := (dispatchSC_lawful options locale).isDelimiter
  writeTokenChar := by
    rintro first second ⟨recast, char⟩
    show Agree _ (writeTokenCharSC options locale first) (writeTokenCharSC options locale second)
    unfold writeTokenCharSC
    rw [char]
    refine ⟨?_, char⟩
    rw [← recast]
    rfl
  writeWhitespaceChar := by
    rintro first second ⟨recast, char⟩
    show Agree _ (writeWhitespaceCharSC first) (writeWhitespaceCharSC second)
    unfold writeWhitespaceCharSC
    rw [char]
    refine ⟨?_, char⟩
    rw [← recast]
    rfl
  writeWhitespaceDelimiter := fun _ _ => ⟨rfl, rfl⟩

theorem dispatchUTF8_blind (options : Options) (locale : Locale) :
    DispatchTable.Blind CharData.cluster (dispatchUTF8 options locale) where
  getNextChar := by
    intro first second recast
    rw [← recast]
    show Agree _ (getNextCharUTF8 locale first)
      (getNextCharUTF8 locale { first with charData := second.charData })
    refine (Agree.of_eq (fun _ => rfl) (getCluster locale first.input)).bind ?_
    rintro ⟨_ | original, input⟩ _ rfl
    · exact ⟨rfl, rfl, nofun⟩
    · exact ⟨rfl, rfl, fun _ => rfl⟩
  isWhitespace := (dispatchUTF8_lawful options locale).isWhitespace
  isDelimiter := (dispatchUTF8_lawful options locale).isDelimiter
  writeTokenChar := by
    rintro first second ⟨recast, char⟩
    rw [← recast]
    generalize second.charData = other at char
    show Agree _ (writeTokenCharUTF8 options locale first)
      (writeTokenCharUTF8 options locale { first with charData := other })
    unfold writeTokenCharUTF8
    dsimp only
    -- The casefolded form is made from the converted one.
    obtain ⟨folded, folded', isFolded, isFolded', same, written⟩ : ∃ folded folded',
        (if options.ignoreCase then { first.charData with
          casefolded := locale.foldCase first.charData.converted } else first.charData) = folded ∧
        (if options.ignoreCase then { other with
          casefolded := locale.foldCase other.converted } else other) = folded' ∧
        folded.cluster = folded'.cluster ∧
        (if options.ignoreCase then folded.casefolded else folded.converted) =
          if options.ignoreCase then folded'.casefolded else folded'.converted := by
      refine ⟨_, _, rfl, rfl, ?_, ?_⟩
      · cases options.ignoreCase <;> exact char
      · have converted := (Prod.mk.inj char).2
        cases options.ignoreCase with
        | true => exact congrArg locale.foldCase converted
        | false => exact converted
    rw [isFolded, isFolded', written, (Prod.mk.inj same).1]
    refine (Agree.of_eq (fun _ => rfl) (filteredConvertAll _ 0)).bind ?_
    rintro ⟨word, _⟩ _ rfl
    dsimp only
    split
    · exact ⟨rfl, same⟩
    · refine (Agree.of_eq (fun _ => rfl) (filteredConvertAll _ _)).bind ?_
      rintro ⟨bytes, highSurrogate⟩ _ rfl
      exact ⟨rfl, same⟩
  writeWhitespaceChar := by
    rintro first second ⟨recast, char⟩
    rw [← recast]
    generalize second.charData = other at char
    show Agree _ (writeWhitespaceCharUTF8 first)
      (writeWhitespaceCharUTF8 { first with charData := other })
    unfold writeWhitespaceCharUTF8
    dsimp only
    rw [(Prod.mk.inj char).1]
    split
    · exact ⟨rfl, char⟩
    · refine (Agree.of_eq (fun _ => rfl) (filteredConvertAll _ 0)).bind ?_
      rintro ⟨bytes, _⟩ _ rfl
      exact ⟨rfl, char⟩
  writeWhitespaceDelimiter := by
    intro reading char
    show Agree _ (writeWhitespaceDelimiterUTF8 reading) (writeWhitespaceDelimiterUTF8 _)
    refine (Agree.of_eq (fun _ => rfl) (filteredConvertToUTF8 0 _)).bind ?_
    rintro ⟨bytes, highSurrogate⟩ _ rfl
    exact ⟨rfl, rfl⟩

theorem dispatch_blind (options : Options) (locale : Locale) :
    ∃ (Key : Type) (key : CharData → Key), DispatchTable.Blind key (dispatch options locale) := by
  unfold dispatch
  split
  · exact ⟨_, _, dispatchUTF8_blind options locale⟩
  · exact ⟨_, _, dispatchSC_blind options locale⟩

section Reading

variable {Key : Type} {key : CharData → Key} {table : DispatchTable} {first second : Reading}

/-- Nothing but the last character differs, and that was left alone. -/
def Keeping (first second one other : Reading) : Prop :=
  Recast one other ∧ one.charData = first.charData ∧ other.charData = second.charData

theorem Keeping.kin {one other : Reading} (keeping : Keeping first second one other)
    (char : key first.charData = key second.charData) : Kin key one other :=
  ⟨keeping.1, by rw [keeping.2.1, keeping.2.2, char]⟩

theorem writeEndOfToken_agree (recast : Recast first second) :
    Agree (Keeping first second) (writeEndOfToken first) (writeEndOfToken second) := by
  rw [← recast]
  unfold writeEndOfToken
  dsimp only
  refine (Agree.of_eq (fun _ => rfl) (getValue first.hashtable first.currentWord)).bind ?_
  rintro ⟨value, hashtable⟩ _ rfl
  exact ⟨rfl, rfl, rfl⟩

theorem Keeping.trans {one other one' other' : Reading} (keeping : Keeping first second one other)
    (keeping' : Keeping one other one' other') : Keeping first second one' other' :=
  ⟨keeping'.1, keeping'.2.1.trans keeping.2.1, keeping'.2.2.trans keeping.2.2⟩

section Blind

variable (blind : DispatchTable.Blind key table)

include blind

/-- Whitespace is written with its terminator. -/
theorem delimited_agree (recast : Recast first second) {bytes bytes' : List UInt8}
    (same : bytes = bytes') :
    Agree (Keeping first second)
      (table.writeWhitespaceDelimiter { first with whitespace := first.whitespace ++ bytes })
      (table.writeWhitespaceDelimiter
        { second with whitespace := second.whitespace ++ bytes' }) := by
  subst same
  have agree := blind.writeWhitespaceDelimiter
    { first with whitespace := first.whitespace ++ bytes } second.charData
  rw [← recast]
  refine agree.mono ?_
  rintro one _ ⟨rfl, kept⟩
  exact ⟨rfl, kept, rfl⟩

theorem handleWhitespaceEnd_agree (recast : Recast first second) :
    Agree (Keeping first second) (handleWhitespaceEnd options table first)
      (handleWhitespaceEnd options table second) := by
  have emptied : ∀ {one other : Reading}, Keeping first second one other →
      Keeping first second { one with whitespaceBuffer := [] }
        { other with whitespaceBuffer := [] } := by
    rintro one other ⟨isRecast, isFirst, isSecond⟩
    exact ⟨by rw [← isRecast]; rfl, isFirst, isSecond⟩
  have sameSplit : splitIndex options first = splitIndex options second := by
    rw [← recast]
    rfl
  have sameBuffer : first.whitespaceBuffer = second.whitespaceBuffer := by
    rw [← recast]
  rw [handleWhitespaceEnd_eq, handleWhitespaceEnd_eq, sameSplit]
  cases splitIndex options second with
  | none =>
    show Agree _ (endWhole table first) (endWhole table second)
    exact (delimited_agree blind recast sameBuffer).bind fun _ _ keeping => emptied keeping
  | some index =>
    show Agree _ (endSplit table index first) (endSplit table index second)
    refine (delimited_agree blind recast (congrArg (List.take index) sameBuffer)).bind ?_
    intro one other keeping
    refine (delimited_agree blind keeping.1 (congrArg (List.drop index) sameBuffer)).bind ?_
    intro one' other' keeping'
    refine (writeEndOfToken_agree keeping'.1).bind fun _ _ keeping'' => ?_
    exact emptied ((keeping.trans keeping').trans keeping'')

theorem classifyChar_eq {char char' : CharData} (same : key char = key char') :
    classifyChar table char = classifyChar table char' := by
  rw [classifyChar, classifyChar, blind.isDelimiter same, blind.isWhitespace same]

/-- One character. The functions that write are called in turn, so that the readings stay kin. -/
theorem readStep_agree (kin : Kin key first second) (category : Category) (state : MatchState)
    (wordCount : Nat) :
    Agree (fun one other => one.1 = other.1 ∧ one.2.1 = other.2.1 ∧ Recast one.2.2 other.2.2)
      (readStep options table category state wordCount first)
      (readStep options table category state wordCount second) := by
  have endsToken : ∀ {one other : Reading}, Kin key one other →
      Agree (Kin key) (writeEndOfToken one) (writeEndOfToken other) := fun kin =>
    (writeEndOfToken_agree kin.recast).mono fun _ _ keeping => keeping.kin kin.char
  have endsRun : ∀ {one other : Reading}, Kin key one other →
      Agree (Kin key) (handleWhitespaceEnd options table one)
        (handleWhitespaceEnd options table other) := fun kin =>
    (handleWhitespaceEnd_agree blind kin.recast).mono fun _ _ keeping => keeping.kin kin.char
  cases state with
  | none =>
    cases category with
    | whitespace =>
      exact (blind.writeWhitespaceChar kin).bind fun _ _ kin => ⟨rfl, rfl, kin.recast⟩
    | delimiter =>
      refine (endsRun kin).bind fun _ _ kin => (blind.writeTokenChar kin).bind fun _ _ kin => ?_
      exact (endsToken kin).bind fun _ _ kin => ⟨rfl, rfl, kin.recast⟩
    | other =>
      refine (endsRun kin).bind fun _ _ kin => ?_
      exact (blind.writeTokenChar kin).bind fun _ _ kin => ⟨rfl, rfl, kin.recast⟩
  | word =>
    cases category with
    | whitespace =>
      refine (endsToken kin).bind fun _ _ kin => ?_
      exact (blind.writeWhitespaceChar kin).bind fun _ _ kin => ⟨rfl, rfl, kin.recast⟩
    | delimiter =>
      refine (endsToken kin).bind fun _ _ kin => (blind.writeTokenChar kin).bind fun _ _ kin => ?_
      refine (endsToken kin).bind fun _ _ kin => ?_
      exact (endsRun kin).bind fun _ _ kin => ⟨rfl, rfl, kin.recast⟩
    | other => exact (blind.writeTokenChar kin).bind fun _ _ kin => ⟨rfl, rfl, kin.recast⟩
  | whitespace =>
    cases category with
    | whitespace =>
      exact (blind.writeWhitespaceChar kin).bind fun _ _ kin => ⟨rfl, rfl, kin.recast⟩
    | delimiter =>
      refine (blind.writeTokenChar kin).bind fun _ _ kin => (endsToken kin).bind fun _ _ kin => ?_
      exact (endsRun kin).bind fun _ _ kin => ⟨rfl, rfl, kin.recast⟩
    | other =>
      refine (endsRun kin).bind fun _ _ kin => ?_
      exact (blind.writeTokenChar kin).bind fun _ _ kin => ⟨rfl, rfl, kin.recast⟩

theorem readLoop_agree (fuel : Nat) :
    ∀ (state : MatchState) (wordCount : Nat) {first second : Reading}, Recast first second →
      Agree (fun one other => one.1 = other.1 ∧ one.2.1 = other.2.1 ∧ Recast one.2.2 other.2.2)
        (readLoop options table fuel state wordCount first)
        (readLoop options table fuel state wordCount second) := by
  induction fuel with
  | zero => exact fun _ _ _ _ _ => rfl
  | succ fuel inductionHypothesis =>
    intro state wordCount first second recast
    refine (blind.getNextChar recast).bind ?_
    rintro ⟨more, one⟩ ⟨_, other⟩ ⟨rfl, recast', same⟩
    cases more with
    | false => exact ⟨rfl, rfl, recast'⟩
    | true =>
      dsimp only at recast' same
      simp only [if_true]
      rw [classifyChar_eq blind (same rfl)]
      refine (Agree.of_eq (fun _ => rfl) (classifyChar table other.charData)).bind ?_
      rintro category _ rfl
      refine (readStep_agree blind ⟨recast', same rfl⟩ category state wordCount).bind ?_
      rintro ⟨state', wordCount', one'⟩ ⟨_, _, other'⟩ ⟨rfl, rfl, recast''⟩
      exact inductionHypothesis state' wordCount' recast''

end Blind

/-- What `readFile` makes of an input does not depend on the character that was read last. -/
theorem readFile_agree (options : Options) (locale : Locale) (input : List UInt8)
    (char char' : CharData) (hashtable : Hashtable) :
    Agree (fun one other => one.1 = other.1 ∧ Recast one.2 other.2)
      (readFile options locale input char hashtable)
      (readFile options locale input char' hashtable) := by
  obtain ⟨Key, key, blind⟩ := dispatch_blind options locale
  refine (readLoop_agree blind _ .none 0 (show Recast (startReading input char hashtable)
    (startReading input char' hashtable) from rfl)).bind ?_
  rintro ⟨state, wordCount, one⟩ ⟨_, _, other⟩ ⟨rfl, rfl, recast⟩
  refine (handleWhitespaceEnd_agree blind recast).bind fun one' other' keeping => ?_
  cases state with
  | none | whitespace => exact ⟨rfl, keeping.1⟩
  | word =>
    exact (writeEndOfToken_agree keeping.1).bind fun _ _ keeping' => ⟨rfl, keeping'.1⟩

end Reading

/-! ### One comparison -/

/-- The globals that a later comparison finds are as at the start of the program, as far as it
looks at them. -/
structure Printing.Calm (state : Printing) : Prop where
  lastWasDelete : state.lastWasDelete = false
  unused : ∀ side, (state.file side).whitespaceBufferUsed = false
  hashtable : state.hashtable = Hashtable.empty

theorem initialPrinting_calm : initialPrinting.Calm :=
  ⟨rfl, fun side => by cases side <;> rfl, rfl⟩

/-- Both files are filled anew. -/
theorem Printing.Calm.filled_alike {first second : Printing} (calm : first.Calm)
    (calm' : second.Calm) (same : SameOutput options first.screen second.screen)
    {oldReading oldReading' newReading newReading' : Reading}
    (oldRecast : Recast oldReading oldReading') (newRecast : Recast newReading newReading') :
    Alike options (first.filled oldReading newReading).rewound
      (second.filled oldReading' newReading').rewound := by
  have refilled : ∀ {one other : Reading} {file file' : InputFile}, Recast one other →
      file.whitespaceBufferUsed = file'.whitespaceBufferUsed →
      { file.filled one with whitespaceBuffer := [], lastPrinted := 0 } =
        { file'.filled other with whitespaceBuffer := [], lastPrinted := 0 } := by
    intro one other file file' recast used
    rw [← recast]
    simp only [InputFile.filled, used]
  refine ⟨?_, same, calm.lastWasDelete.trans calm'.lastWasDelete.symm, ?_, rfl, rfl⟩
  · funext side
    cases side with
    | old => exact refilled oldRecast ((calm.unused .old).trans (calm'.unused .old).symm)
    | new => exact refilled newRecast ((calm.unused .new).trans (calm'.unused .new).symm)
  · show newReading.hashtable.nextValue = newReading'.hashtable.nextValue
    rw [← newRecast]

/-- What is written does not depend on the character that was read last, nor on the line numbers
and the character that was written last where they are not looked at. -/
theorem prepareAndExecuteDiff_agree {first second : Printing} (calm : first.Calm)
    (calm' : second.Calm) (same : SameOutput options first.screen second.screen)
    (char char' : CharData) :
    Agree (fun one other => Alike options one.state other.state)
      (prepareAndExecuteDiff options locale old new char first)
      (prepareAndExecuteDiff options locale old new char' second) := by
  unfold prepareAndExecuteDiff
  rw [calm.hashtable, calm'.hashtable]
  refine (readFile_agree options locale old char char' Hashtable.empty).bind ?_
  rintro ⟨oldTotal, oldReading⟩ ⟨_, oldReading'⟩ ⟨-, oldRecast⟩
  have sameTable : oldReading.hashtable = oldReading'.hashtable := by
    have isRecast : Recast oldReading oldReading' := oldRecast
    rw [← isRecast]
  dsimp only
  rw [sameTable]
  refine (readFile_agree options locale new _ _ oldReading'.hashtable).bind ?_
  rintro ⟨newTotal, newReading⟩ ⟨_, newReading'⟩ ⟨-, newRecast⟩
  refine (doDiff_agree (calm.filled_alike calm' same oldRecast newRecast)).bind ?_
  exact fun _ _ alike => alike

theorem setFile_lastWasDelete (state : Printing) (side : Side) (file : InputFile) :
    (state.setFile side file).lastWasDelete = state.lastWasDelete := by
  cases side <;> rfl

theorem handleNextToken_lastWasDelete (side : Side) (print : Bool) (mode : Mode)
    (state : Printing) :
    Meets (fun _ => True) (fun final => final.lastWasDelete = state.lastWasDelete)
      (handleNextToken options locale side print mode state) := by
  unfold handleNextToken
  refine (meets_any _).bind fun ⟨pieceEnd, stream, empty, screen⟩ _ => ?_
  refine (meets_any _).bind fun screen _ => ?_
  exact setFile_lastWasDelete _ _ _

theorem handleCommonWord_lastWasDelete (print : Bool) (state : Printing) :
    Meets (fun _ => True) (fun final => final.lastWasDelete = false)
      (handleCommonWord options locale print state) := by
  refine (meets_any _).bind fun state' _ => ?_
  refine (handleNextToken_lastWasDelete .new print .common _).bind fun state'' isFalse => ?_
  refine (handleNextToken_lastWasDelete .old false .oldCommon state'').mono fun final same => ?_
  exact same.trans isFalse

/-- The loop of `printEnd` ends with a common word, if it prints anything. -/
theorem printEndLoop_lastWasDelete (fuel : Nat) : ∀ {state final : Printing},
    printEndLoop options locale fuel state = .ok final →
    state.newFile.tokens.eof ≠ .hit ∨ state.lastWasDelete = false →
    final.lastWasDelete = false := by
  induction fuel with
  | zero => exact fun returns => nomatch returns
  | succ fuel inductionHypothesis =>
    intro state final returns starts
    rw [printEndLoop_succ] at returns
    split at returns
    · next hit =>
      cases returns
      exact starts.resolve_left (not_not_intro hit)
    · obtain ⟨state', prints, further⟩ := bind_eq_ok.mp returns
      have settled := (handleCommonWord_lastWasDelete true state).of_ok prints
      exact inductionHypothesis further (.inr settled)

/-- When common text is printed, a comparison ends with everything read. -/
theorem doDiff_calm {texts : Side → Text} {state final : Printing}
    (prints : options.printCommon = true) (ready : Ready options locale texts state)
    (returns : doDiff options locale state = .ok final) : final.Calm := by
  have finished := (doDiff_meets (fun _ => True) upholds_true ready trivial (fun _ _ => trivial)
    (.inl trivial)).of_ok returns
  rw [Returned, if_pos prints] at finished
  obtain ⟨handled, p, q, -, -, represents, -⟩ := finished
  refine ⟨?_, fun side => ?_, represents.hashtable⟩
  · obtain ⟨state', compares, ends⟩ := bind_eq_ok.mp returns
    obtain ⟨p', q', inStep, handled', -, -, isQ, represents', -⟩ :=
      (doDiffInternal_arrives (fun _ => True) upholds_true ready trivial (fun _ _ => trivial)
        (.inl trivial)).of_ok compares
    rw [printEnd, if_pos prints] at ends
    refine printEndLoop_lastWasDelete _ ends (.inl fun hit => ?_)
    have short := (represents'.files .new).tokens.eof_iff.mp hit
    rw [(texts .new).tokens_length, tracksAt_modes] at short
    have le := inStep.le
    have lengths := inStep.lengths
    omega
  · rw [(represents.files side).buffered, (tracksAt_fresh _ p q side).2]

/-! ### A process -/

/-- What a process keeps between two hunks: the character that was read last, the globals of
`doDiff.c`, and the buffers of `buffer.c` with all that was written. -/
structure Process (contextLines : Nat) where
  charData : CharData
  printing : Printing
  buffers : Buffers contextLines

/-- The characters of `charData` are undefined before the first file is read. -/
def initialProcess (contextLines : Nat) : Process contextLines where
  charData := ⟨0, [], [], []⟩
  printing := initialPrinting
  buffers := initialBuffers contextLines

/-- The calls and the steps that are recorded are those of one comparison. -/
def Printing.unrecorded (state : Printing) : Printing :=
  { state with
    screen := { state.screen with output := [] }
    events := []
    steps := [] }

section Process

variable (options : Options) (locale : Locale) (context : Bool)

/-- `prepareAndExecuteDiff`, with what `buffer.c` makes of it. -/
def Process.compare (process : Process contextLines) (old new : List UInt8) :
    Except Failure (Process contextLines) := do
  let executed ← prepareAndExecuteDiff options locale old new process.charData
    process.printing.unrecorded
  .ok {
    charData := executed.charData
    printing := executed.state
    buffers := process.buffers.performAll context options.lineNumbers
      executed.state.screen.output }

/-- A call of `splitDiffInput`. `charData` is not kept up to date with what the splitter reads:
a comparison begins by reading its first character. -/
def Process.perform (process : Process contextLines) :
    SplitCall → Except Failure (Process contextLines)
  | .putchar c => .ok { process with buffers := process.buffers.put [c] }
  | .prepareAndExecuteDiff old new => process.compare options locale context old new

/-- The output of one process for a whole diff. -/
def splitOutput (contextLines : Nat) (input : List UInt8) : Except Failure (List UInt8) := do
  let process ← (splitDiffInput input).foldlM (Process.perform options locale context)
    (initialProcess contextLines)
  .ok process.buffers.output

/-- The output of a fresh process for two texts. -/
def freshOutput (contextLines : Nat) (old new : List UInt8) : Except Failure (List UInt8) := do
  let process ← (initialProcess contextLines).compare options locale context old new
  .ok process.buffers.output

/-- The text that is due for a call: the character that is echoed, or the output of a fresh process
for the hunk. -/
def callOutput (contextLines : Nat) : SplitCall → Except Failure (List UInt8)
  | .putchar c => .ok [c]
  | .prepareAndExecuteDiff old new => freshOutput options locale context contextLines old new

/-- The texts that are due for the calls of a diff, in their order. -/
def hunkOutput (contextLines : Nat) (input : List UInt8) : Except Failure (List UInt8) :=
  (splitDiffInput input).foldlM (fun output call => do
    let text ← callOutput options locale context contextLines call
    .ok (output ++ text)) []

variable {options locale context} {process : Process contextLines}

/-- The static variables that a comparison looks at are as in a fresh process. -/
structure Process.Fresh (options : Options) (context : Bool) (process : Process contextLines) :
    Prop where
  calm : process.printing.Calm
  screen : SameOutput options process.printing.unrecorded.screen initialPrinting.screen
  buffers : context = true →
    process.buffers = (initialBuffers contextLines).behind process.buffers.output

theorem initialProcess_fresh : (initialProcess contextLines).Fresh options context :=
  ⟨initialPrinting_calm, ⟨rfl, .inr ⟨rfl, rfl⟩, .inr ⟨rfl, rfl⟩⟩, fun _ => rfl⟩

theorem Process.Fresh.put (fresh : process.Fresh options context) (text : List UInt8) :
    Process.Fresh options context { process with buffers := process.buffers.put text } := by
  refine ⟨fresh.calm, fresh.screen, fun isContext => ?_⟩
  rw [fresh.buffers isContext]
  simp only [Buffers.put, Buffers.behind, initialBuffers, List.append_nil]

/-- One hunk: what a fresh process writes is written behind the earlier output. -/
theorem Process.Fresh.compare_agree (fresh : process.Fresh options context)
    (old new : List UInt8) :
    Agree (fun one other => Alike options one.printing other.printing ∧
        one.buffers.output = process.buffers.output ++ other.buffers.output)
      (process.compare options locale context old new)
      ((initialProcess contextLines).compare options locale context old new) := by
  have calm : process.printing.unrecorded.Calm :=
    ⟨fresh.calm.lastWasDelete, fresh.calm.unused, fresh.calm.hashtable⟩
  refine (prepareAndExecuteDiff_agree calm initialPrinting_calm fresh.screen _ _).bind ?_
  intro one other alike
  refine ⟨alike, ?_⟩
  show (process.buffers.performAll _ _ _).output = _ ++ (Buffers.performAll _ _ _ _).output
  rw [alike.screen.output]
  cases context with
  | false =>
    rw [performAll_output, performAll_output]
    rfl
  | true =>
    refine (congrArg (fun buffers : Buffers contextLines => (buffers.performAll true
      options.lineNumbers other.state.screen.output).output) (fresh.buffers rfl)).trans ?_
    exact congrArg Buffers.output (performAll_behind _ _ true _ _)

end Process

/-! ### A whole diff -/

/-- A text that is compared was collected before. -/
theorem Splitter.next_calls {splitter : Splitter} {c : UInt8}
    (isCalled : .prepareAndExecuteDiff old new ∈ (splitter.next c).calls) :
    .prepareAndExecuteDiff old new ∈ splitter.calls ∨
      old = splitter.oldFile ∧ new = splitter.newFile := by
  unfold Splitter.next at isCalled
  repeat' split at isCalled
  all_goals simp_all

theorem Splitter.next_length (splitter : Splitter) (c : UInt8) :
    (splitter.next c).oldFile.length ≤ splitter.oldFile.length + 1 ∧
      (splitter.next c).newFile.length ≤ splitter.newFile.length + 1 := by
  unfold Splitter.next
  repeat' split
  all_goals simp

/-- No text is longer than what was read so far. -/
structure Splitter.Within (bound : Nat) (splitter : Splitter) : Prop where
  oldFile : splitter.oldFile.length ≤ bound
  newFile : splitter.newFile.length ≤ bound
  calls : ∀ old new, .prepareAndExecuteDiff old new ∈ splitter.calls →
    old.length ≤ bound ∧ new.length ≤ bound

theorem Splitter.Within.next {bound : Nat} {splitter : Splitter} (within : splitter.Within bound)
    (c : UInt8) : (splitter.next c).Within (bound + 1) := by
  obtain ⟨oldFile, newFile, calls⟩ := within
  obtain ⟨oldGrows, newGrows⟩ := splitter.next_length c
  refine ⟨by omega, by omega, fun old new isCalled => ?_⟩
  rcases Splitter.next_calls isCalled with earlier | ⟨rfl, rfl⟩
  · have within := calls old new earlier
    omega
  · omega

theorem Splitter.Within.run {bound : Nat} {splitter : Splitter} (within : splitter.Within bound)
    (input : List UInt8) : (splitter.run input).Within (bound + input.length) := by
  induction input generalizing bound splitter with
  | nil => exact within
  | cons c input inductionHypothesis =>
    have further := inductionHypothesis (within.next c)
    rwa [Nat.add_assoc, Nat.add_comm 1] at further

theorem hunk_length {input : List UInt8}
    (isHunk : .prepareAndExecuteDiff old new ∈ splitDiffInput input) :
    old.length ≤ input.length ∧ new.length ≤ input.length := by
  have starts : initialSplitter.Within 0 := ⟨le_rfl, le_rfl, fun _ _ isCalled => nomatch isCalled⟩
  have within := starts.run input
  rw [Nat.zero_add] at within
  rcases List.mem_append.mp isHunk with earlier | isLast
  · exact within.calls old new earlier
  · obtain ⟨rfl, rfl⟩ := SplitCall.prepareAndExecuteDiff.inj (List.mem_singleton.mp isLast)
    exact ⟨within.oldFile, within.newFile⟩

section Hunks

variable {input : List UInt8}

/-- In single-byte mode a comparison that prints common text ends calmly. -/
theorem compare_calm (singleByte : options.utf8Mode = false) (prints : options.printCommon = true)
    (size : old.length + new.length < 2 ^ 56) {context : Bool} {fresh : Process contextLines}
    (returns : (initialProcess contextLines).compare options locale context old new = .ok fresh) :
    fresh.printing.Calm := by
  obtain ⟨executed, executes, isFresh⟩ := bind_eq_ok.mp returns
  cases isFresh
  obtain ⟨_, _, _, _, _, _, prepared, -, -, diffs⟩ := exists_prepared singleByte size executes
  exact doDiff_calm prints (prepared.ready singleByte) diffs

/-- Nothing of what an earlier comparison has left is looked at. -/
structure Options.Quiet (options : Options) (context : Bool) : Prop where
  unmarked : Unmarked options
  noContext : context = false
  singleByte : options.utf8Mode = false
  prints : options.printCommon = true

variable {context : Bool} {process : Process contextLines}

theorem Process.Fresh.compare (fresh : process.Fresh options context)
    (quiet : options.Quiet context) (size : old.length + new.length < 2 ^ 56)
    {next : Process contextLines}
    (returns : process.compare options locale context old new = .ok next) :
    next.Fresh options context := by
  obtain ⟨other, compares, alike, -⟩ := (returns ▸ fresh.compare_agree old new).exists_ok
  have calm := compare_calm quiet.singleByte quiet.prints size compares
  refine ⟨⟨?_, fun side => ?_, alike.tables.1⟩, .of_output quiet.unmarked rfl, fun isContext => ?_⟩
  · exact alike.lastWasDelete.trans calm.lastWasDelete
  · exact (congrArg (fun file => (file side).whitespaceBufferUsed) alike.file).trans
      (calm.unused side)
  · exact absurd (quiet.noContext.symm.trans isContext) Bool.false_ne_true

/-- Before the first comparison, and between all of them when nothing else is looked at, the
variables are as in a fresh process. -/
theorem run_fresh {calls : List SplitCall}
    (sizes : ∀ old new, .prepareAndExecuteDiff old new ∈ calls →
      old.length + new.length < 2 ^ 56)
    (quiet : ∀ old new, .prepareAndExecuteDiff old new ∈ calls → options.Quiet context)
    (runs : calls.foldlM (Process.perform options locale context) (initialProcess contextLines) =
      .ok process) : process.Fresh options context := by
  -- The calls that were made so far are among those that the hypotheses are about.
  let kept (done : List SplitCall) (process : Process contextLines) : Prop :=
    (∀ call ∈ done, call ∈ calls) → process.Fresh options context
  have step : ∀ done call before, kept done before → Meets (fun _ => True)
      (kept (done ++ [call])) (before.perform options locale context call) := by
    intro done call before fresh
    cases performs : before.perform options locale context call with
    | error failure => trivial
    | ok next =>
      intro areCalls
      have isFresh := fresh fun call isDone => areCalls call (List.mem_append_left _ isDone)
      have isCall := areCalls call (List.mem_append_right _ List.mem_cons_self)
      cases call with
      | putchar c =>
        cases performs
        exact isFresh.put [c]
      | prepareAndExecuteDiff old new =>
        exact isFresh.compare (quiet old new isCall) (sizes old new isCall) performs
  exact (Meets.foldlM kept step calls fun _ => initialProcess_fresh).of_ok runs
    fun _ isCall => isCall

/-- The hunks of a diff are independent when the variables that are looked at are as in a fresh
process before each comparison. That is so before the first one, and before all of them when no
line numbers, colours, repeated markers or context lines are asked for, in single-byte mode with
common text printed. -/
theorem hunks_independent (size : 6 * input.length < 2 ^ 31)
    (fresh : ∀ before old new after process,
      splitDiffInput input = before ++ .prepareAndExecuteDiff old new :: after →
      before.foldlM (Process.perform options locale context) (initialProcess contextLines) =
        .ok process →
      process.Fresh options context ∨ options.Quiet context ∨
        ∀ old new, .prepareAndExecuteDiff old new ∉ before) :
    splitOutput options locale context contextLines input =
      hunkOutput options locale context contextLines input := by
  have starts : (initialProcess contextLines).buffers.output = [] := rfl
  refine Agree.eq ?_
  rw [← bind_pure (hunkOutput options locale context contextLines input)]
  refine Agree.bind (Agree.foldlM (splitDiffInput input) ?_ starts) fun _ _ same => same
  rintro before call after isCalls process _ rfl runs
  cases call with
  | putchar c => exact rfl
  | prepareAndExecuteDiff old new =>
    have isFresh : process.Fresh options context := by
      rcases fresh before old new after process isCalls runs with isFresh | quiet | isFirst
      · exact isFresh
      · refine run_fresh (fun old new isCall => ?_) (fun _ _ _ => quiet) runs
        have lengths := hunk_length (isCalls ▸ List.mem_append_left _ isCall)
        omega
      · exact run_fresh (fun old new isCall => absurd isCall (isFirst old new))
          (fun old new isCall => absurd isCall (isFirst old new)) runs
    rw [← bind_pure (process.perform options locale context _)]
    simp only [callOutput, freshOutput, bind_assoc, ok_bind]
    exact (isFresh.compare_agree old new).bind fun _ _ wrote => wrote.2

end Hunks

/-- The call compares two texts. -/
def SplitCall.compares : SplitCall → Bool
  | .putchar _ => false
  | .prepareAndExecuteDiff _ _ => true

/-- A diff with a single comparison has none before it. -/
theorem single_first {calls before after : List SplitCall}
    (single : calls.countP SplitCall.compares ≤ 1)
    (isCalls : calls = before ++ .prepareAndExecuteDiff old new :: after) (old' new' : List UInt8) :
    .prepareAndExecuteDiff old' new' ∉ before := by
  intro isEarlier
  have earlier : 0 < before.countP SplitCall.compares :=
    List.countP_pos_iff.mpr ⟨_, isEarlier, rfl⟩
  rw [isCalls, List.countP_append, List.countP_cons_of_pos rfl] at single
  omega

/-- A diff with one hunk. -/
def oneHunk : List UInt8 := "@@ -1 +1 @@\n-a\n+b\n x\n y\n".toUTF8.toList

/-- A diff with two hunks; the first one ends with two common lines. -/
def twoHunks : List UInt8 :=
  "@@ -1 +1 @@\n-a\n+b\n x\n y\n@@ -9 +9 @@\n-d\n+e\n".toUTF8.toList

theorem hunks_independent_twoHunks :
    splitOutput { defaultOptions with lineNumbers := 1 } cLocale true 1 oneHunk =
        hunkOutput { defaultOptions with lineNumbers := 1 } cLocale true 1 oneHunk ∧
      splitOutput defaultOptions cLocale false 0 twoHunks =
        hunkOutput defaultOptions cLocale false 0 twoHunks := by
  have single : (splitDiffInput oneHunk).countP SplitCall.compares ≤ 1 := by decide +kernel
  refine ⟨hunks_independent (by decide +kernel) fun _ _ _ _ _ isCalls _ => ?_,
    hunks_independent (by decide +kernel) fun _ _ _ _ _ _ _ => ?_⟩
  · exact .inr (.inr (single_first single isCalls))
  · exact .inr (.inl ⟨⟨rfl, fun _ => ⟨rfl, rfl⟩⟩, rfl, rfl, rfl⟩)

/-- The lines of the second hunk are numbered from where the first one has stopped; and with a line
of context, the last line of the first hunk is written behind the header of the second one. -/
theorem hunks_dependent :
    splitOutput { defaultOptions with lineNumbers := 1 } cLocale false 0 twoHunks ≠
        hunkOutput { defaultOptions with lineNumbers := 1 } cLocale false 0 twoHunks ∧
      splitOutput defaultOptions cLocale true 1 twoHunks ≠
        hunkOutput defaultOptions cLocale true 1 twoHunks := by
  decide +kernel

end Dwdiff
