/-
This file is about the hunks of a unified diff: which texts `splitDiffInput`
compares when its input is the output of `diff -u`. Two things come between a
hunk and its comparison. The line that says that the last line of a file has no
newline ends the hunk, and an empty line in a header hides the line behind it.
-/

import Dwdiff.SplitInput

namespace Dwdiff

variable {state : Bool × Hunks} {swallows isOpen : Bool} {begun : List (List UInt8 × List UInt8)}

/-! ### The format -/

/-- A line without its line feed. -/
structure TextLine where
  text : List UInt8
  plain : 10 ∉ text
  deriving DecidableEq

def TextLine.bytes (line : TextLine) : List UInt8 := line.text ++ [10]

/-- A line between the hunks of one file and the header of the next one. -/
def TextLine.Separates (line : TextLine) : Prop :=
  ∀ c ∈ line.text.head?, c ≠ 0x40 ∧ c ≠ 0x20 ∧ c ≠ 0x2B ∧ c ≠ 0x2D ∧ c ≠ 0x5C

inductive LineKind where
  | common
  | old
  | new
  deriving DecidableEq

def LineKind.sign : LineKind → UInt8
  | .common => 0x20
  | .old => 0x2D
  | .new => 0x2B

/-- A line of a hunk, and whether the line behind it says that it has no newline. -/
structure BodyLine where
  kind : LineKind
  text : TextLine
  noNewline : Bool
  deriving DecidableEq

/-- `\ No newline at end of file`. -/
def noNewlineText : List UInt8 := "\\ No newline at end of file\n".toUTF8.toList

def BodyLine.lines (line : BodyLine) : List (List UInt8) :=
  (line.kind.sign :: line.text.bytes) :: if line.noNewline then [noNewlineText] else []

def BodyLine.oldText (line : BodyLine) : List UInt8 :=
  if line.kind = .new then [] else 0x20 :: line.text.bytes

def BodyLine.newText (line : BodyLine) : List UInt8 :=
  if line.kind = .old then [] else 0x20 :: line.text.bytes

structure Hunk where
  counts : TextLine
  body : List BodyLine
  nonempty : body ≠ []

def Hunk.lines (hunk : Hunk) : List (List UInt8) :=
  (0x40 :: hunk.counts.bytes) :: hunk.body.flatMap BodyLine.lines

/-- The old and the new text of some lines. -/
def bodyTexts (body : List BodyLine) : List UInt8 × List UInt8 :=
  (body.flatMap BodyLine.oldText, body.flatMap BodyLine.newText)

/-- The header of a file and its hunks. The header also has what belongs to files without hunks. -/
structure FileDiff where
  header : List TextLine
  hunks : List Hunk
  plain : ∀ line ∈ header, line.text.head? ≠ some 0x40
  nonempty : hunks ≠ []

def FileDiff.lines (file : FileDiff) : List (List UInt8) :=
  file.header.map TextLine.bytes ++ file.hunks.flatMap Hunk.lines

/-- The output of `diff -u`. Each file but the first one, and what comes behind the last one, begins
with a line that cannot be one of a hunk. -/
structure UnifiedDiff where
  files : List FileDiff
  trailer : List TextLine
  plain : ∀ line ∈ trailer, line.text.head? ≠ some 0x40
  separated : ∀ file ∈ files.tail, ∃ line ∈ file.header.head?, line.Separates
  ended : files ≠ [] → ∀ line ∈ trailer.head?, line.Separates

def UnifiedDiff.lines (diff : UnifiedDiff) : List (List UInt8) :=
  diff.files.flatMap FileDiff.lines ++ diff.trailer.map TextLine.bytes

def UnifiedDiff.text (diff : UnifiedDiff) : List UInt8 := diff.lines.flatten

def UnifiedDiff.hunks (diff : UnifiedDiff) : List Hunk := diff.files.flatMap FileDiff.hunks

/-! ### The comparisons -/

/-- The texts that are compared. -/
def compared (calls : List SplitCall) : List (List UInt8 × List UInt8) :=
  calls.filterMap fun
    | .putchar _ => none
    | .prepareAndExecuteDiff old new => some (old, new)

theorem compared_append (calls more : List SplitCall) :
    compared (calls ++ more) = compared calls ++ compared more := List.filterMap_append

theorem compared_echo (line : List UInt8) : compared (line.map .putchar) = [] := by
  simp [compared]

/-- The lines of a hunk up to the first one without a newline. -/
def seen : List BodyLine → List BodyLine
  | [] => []
  | line :: body => line :: if line.noNewline then [] else seen body

/-- The hunk is ended by a line that says so. -/
def Hunk.isCut (hunk : Hunk) : Bool := hunk.body.any BodyLine.noNewline

/-- The header hides the first hunk. -/
def FileDiff.hides (file : FileDiff) : Bool := swallowsNext (file.header.map TextLine.bytes)

/-- The hunks that are found. -/
def FileDiff.found (file : FileDiff) : List Hunk :=
  if file.hides then file.hunks.tail else file.hunks

/-! ### Between two lines -/

/-- One line, with whether the next one is swallowed. -/
def stepLine (state : Bool × Hunks) (line : List UInt8) : Bool × Hunks :=
  (!state.1 && line == [10], state.2.lineUnless state.1 line)

/-- The hunks begun so far, with the open one. -/
structure Reached (state : Bool × Hunks) (swallows isOpen : Bool)
    (begun : List (List UInt8 × List UInt8)) : Prop where
  atSwallows : state.1 = swallows
  atOpen : state.2.isOpen = isOpen
  atBegun : compared state.2.calls ++
    (if isOpen then [(state.2.oldFile, state.2.newFile)] else []) = begun
  isClosed : isOpen = false → state.2.oldFile = [] ∧ state.2.newFile = []
  hidden : swallows = true → isOpen = false

section Reached

variable {c : UInt8} {rest : List UInt8}

/-- A line that is echoed and ends the hunk, if one is open. -/
theorem Reached.other (reached : Reached state swallows isOpen begun)
    (notHunk : c ≠ 0x40) (notBody : isOpen = true → ¬ IsBody c) :
    Reached (stepLine state (c :: rest)) (!swallows && (c :: rest) == [10]) false begun := by
  obtain ⟨swallowsNow, hunks⟩ := state
  obtain ⟨rfl, rfl, isBegun, isClosed, hidden⟩ := reached
  have isHunk : (c == 0x40) = false := beq_eq_false_iff_ne.mpr notHunk
  cases isOpen : hunks.isOpen with
  | false =>
    have isStep : stepLine (swallowsNow, hunks) (c :: rest) =
        (!swallowsNow && (c :: rest) == [10], hunks.echo (c :: rest)) := by
      rw [stepLine]
      cases swallowsNow with
      | true => rfl
      | false =>
        show (_, hunks.line (c :: rest)) = _
        rw [Hunks.line_outside isOpen, isHunk, ← isOpen]
        rfl
    rw [isStep]
    refine ⟨rfl, isOpen, ?_, fun _ => isClosed isOpen, fun _ => rfl⟩
    rw [← isBegun]
    show compared (hunks.calls ++ _) ++ _ = compared hunks.calls ++ _
    rw [compared_append, compared_echo, List.append_nil, isOpen]
    rfl
  | true =>
    have shown : swallowsNow = false := by
      cases swallowsNow with
      | true => exact absurd (hidden rfl) (by rw [isOpen]; exact Bool.false_ne_true.symm)
      | false => rfl
    subst shown
    have isStep : stepLine (false, hunks) (c :: rest) =
        (!false && (c :: rest) == [10], { hunks.close.echo (c :: rest) with isOpen := false }) := by
      rw [stepLine]
      show (_, hunks.line (c :: rest)) = _
      rw [Hunks.line_ends isOpen (notBody isOpen), isHunk]
    rw [isStep]
    refine ⟨rfl, rfl, ?_, fun _ => ⟨rfl, rfl⟩, fun _ => rfl⟩
    rw [← isBegun]
    show compared (hunks.calls ++ _ ++ _) ++ [] = compared hunks.calls ++ _
    rw [compared_append, compared_append, compared_echo, List.append_nil, List.append_nil, isOpen]
    rfl

/-- A line with an at sign that is seen. -/
theorem Reached.opens (reached : Reached state false isOpen begun) (rest : List UInt8) :
    Reached (stepLine state (0x40 :: rest)) false true (begun ++ [([], [])]) := by
  obtain ⟨swallowsNow, hunks⟩ := state
  obtain ⟨rfl, rfl, isBegun, isClosed, -⟩ := reached
  cases isOpen : hunks.isOpen with
  | false =>
    have isStep : stepLine (false, hunks) (0x40 :: rest) =
        (false, { hunks.echo (0x40 :: rest) with isOpen := true }) := by
      show (_, hunks.line (0x40 :: rest)) = _
      rw [Hunks.line_outside isOpen]
      rfl
    rw [isStep]
    refine ⟨rfl, rfl, ?_, nofun, nofun⟩
    rw [isOpen, if_neg Bool.false_ne_true, List.append_nil] at isBegun
    show compared (hunks.calls ++ _) ++ [(hunks.oldFile, hunks.newFile)] = _
    rw [compared_append, compared_echo, List.append_nil, isBegun, (isClosed isOpen).1,
      (isClosed isOpen).2]
  | true =>
    have isStep : stepLine (false, hunks) (0x40 :: rest) =
        (false, { hunks.close.echo (0x40 :: rest) with isOpen := true }) := by
      show (_, hunks.line (0x40 :: rest)) = _
      rw [Hunks.line_ends isOpen (by unfold IsBody; decide)]
      rfl
    rw [isStep]
    refine ⟨rfl, rfl, ?_, nofun, nofun⟩
    rw [isOpen] at isBegun
    show compared (hunks.calls ++ [_] ++ _) ++ [([], [])] = _
    rw [compared_append, compared_append, compared_echo, List.append_nil, ← isBegun]
    rfl

/-- A line with an at sign that is swallowed. -/
theorem Reached.hides (reached : Reached state true isOpen begun) (line : List UInt8) :
    Reached (stepLine state line) false false begun := by
  obtain ⟨swallowsNow, hunks⟩ := state
  obtain ⟨rfl, rfl, isBegun, isClosed, hidden⟩ := reached
  have isOpen := hidden rfl
  refine ⟨rfl, isOpen, ?_, fun _ => isClosed isOpen, nofun⟩
  rw [← isBegun, isOpen]
  show compared (hunks.calls ++ _) ++ [] = compared hunks.calls ++ []
  rw [compared_append, compared_echo, List.append_nil]

/-- A line of an open hunk. -/
theorem Reached.body {earlier : List (List UInt8 × List UInt8)} {old new : List UInt8}
    (reached : Reached state false true (earlier ++ [(old, new)])) (line : BodyLine) :
    Reached (stepLine state (line.kind.sign :: line.text.bytes)) false true
      (earlier ++ [(old ++ line.oldText, new ++ line.newText)]) := by
  obtain ⟨swallowsNow, hunks⟩ := state
  obtain ⟨rfl, isOpen, isBegun, -, -⟩ := reached
  dsimp only at isOpen isBegun
  obtain ⟨isEarlier, isTexts⟩ := List.append_inj' isBegun rfl
  obtain ⟨rfl, rfl⟩ : hunks.oldFile = old ∧ hunks.newFile = new := by simpa using isTexts
  have isEmpty : ((line.kind.sign :: line.text.bytes) == [10]) = false := by
    cases line.kind <;> simp [LineKind.sign]
  have isLine : hunks.line (line.kind.sign :: line.text.bytes) = { hunks with
      oldFile := hunks.oldFile ++ line.oldText, newFile := hunks.newFile ++ line.newText } := by
    unfold BodyLine.oldText BodyLine.newText
    cases line.kind <;> simp [Hunks.line, isOpen, LineKind.sign]
  have isStep : stepLine (false, hunks) (line.kind.sign :: line.text.bytes) =
      (false, { hunks with
        oldFile := hunks.oldFile ++ line.oldText, newFile := hunks.newFile ++ line.newText }) := by
    rw [stepLine, isEmpty, ← isLine]
    rfl
  rw [isStep]
  exact ⟨rfl, isOpen, by rw [← isEarlier]; rfl, by simp, by simp⟩

/-- The line behind one without a newline. -/
theorem Reached.noNewline (reached : Reached state false isOpen begun) :
    Reached (stepLine state noNewlineText) false false begun := by
  have isText : noNewlineText = 0x5C :: noNewlineText.tail := by decide +kernel
  rw [isText]
  have other := @Reached.other state false isOpen begun 0x5C noNewlineText.tail reached (by decide)
    fun _ => by unfold IsBody; decide
  have isEmpty : ((0x5C :: noNewlineText.tail) == [10]) = false := by decide +kernel
  rwa [isEmpty, Bool.and_false] at other

end Reached

/-! ### Hunks and files -/

/-- The lines of a hunk that is not open are echoed. -/
theorem Reached.bodyOutside (body : List BodyLine) :
    ∀ {state : Bool × Hunks}, Reached state false false begun →
      Reached ((body.flatMap BodyLine.lines).foldl stepLine state) false false begun := by
  induction body with
  | nil => exact fun reached => reached
  | cons line body inductionHypothesis =>
    intro state reached
    have first :
        Reached (stepLine state (line.kind.sign :: line.text.bytes)) false false begun := by
      have other := @Reached.other state false false begun line.kind.sign line.text.bytes reached
        (by cases line.kind <;> decide) (fun absurd' => nomatch absurd')
      have isEmpty : ((line.kind.sign :: line.text.bytes) == [10]) = false := by
        cases line.kind <;> simp [LineKind.sign]
      rwa [isEmpty, Bool.and_false] at other
    rw [List.flatMap_cons, List.foldl_append, BodyLine.lines, List.foldl_cons]
    cases line.noNewline with
    | false => exact inductionHypothesis first
    | true => exact inductionHypothesis first.noNewline

/-- The lines of an open hunk are compared up to the first one without a newline. -/
theorem Reached.bodyLines (body : List BodyLine) :
    ∀ {state : Bool × Hunks} {earlier : List (List UInt8 × List UInt8)} {old new : List UInt8},
      Reached state false true (earlier ++ [(old, new)]) →
      Reached ((body.flatMap BodyLine.lines).foldl stepLine state) false
        (!body.any BodyLine.noNewline)
        (earlier ++ [(old ++ (bodyTexts (seen body)).1, new ++ (bodyTexts (seen body)).2)]) := by
  induction body with
  | nil =>
    intro state earlier old new reached
    simpa [seen, bodyTexts] using reached
  | cons line body inductionHypothesis =>
    intro state earlier old new reached
    have first := reached.body line
    rw [List.flatMap_cons, List.foldl_append, BodyLine.lines, List.foldl_cons, List.any_cons, seen]
    cases line.noNewline with
    | true =>
      have rest := first.noNewline.bodyOutside body
      simpa [bodyTexts] using rest
    | false =>
      have rest := inductionHypothesis first
      simpa [bodyTexts] using rest

theorem Reached.hunk (reached : Reached state false isOpen begun) (hunk : Hunk) :
    Reached (hunk.lines.foldl stepLine state) false (!hunk.isCut)
      (begun ++ [bodyTexts (seen hunk.body)]) := by
  rw [Hunk.lines, List.foldl_cons]
  exact (reached.opens hunk.counts.bytes).bodyLines hunk.body

theorem Reached.hiddenHunk (reached : Reached state true isOpen begun) (hunk : Hunk) :
    Reached (hunk.lines.foldl stepLine state) false false begun := by
  rw [Hunk.lines, List.foldl_cons]
  exact (reached.hides _).bodyOutside hunk.body

/-- Whether a hunk is open behind some hunks. -/
def openBehind (hunks : List Hunk) (isOpen : Bool) : Bool :=
  hunks.getLast?.elim isOpen fun hunk => !hunk.isCut

theorem Reached.hunks (hunks : List Hunk) :
    ∀ {state : Bool × Hunks} {isOpen : Bool} {begun : List (List UInt8 × List UInt8)},
      Reached state false isOpen begun →
      Reached ((hunks.flatMap Hunk.lines).foldl stepLine state) false (openBehind hunks isOpen)
        (begun ++ hunks.map fun hunk => bodyTexts (seen hunk.body)) := by
  induction hunks with
  | nil =>
    intro state isOpen begun reached
    rw [List.map_nil, List.append_nil]
    exact reached
  | cons hunk hunks inductionHypothesis =>
    intro state isOpen begun reached
    have rest := inductionHypothesis (reached.hunk hunk)
    have isOpenBehind : openBehind (hunk :: hunks) isOpen = openBehind hunks (!hunk.isCut) := by
      rw [openBehind, openBehind, List.getLast?_cons]
      cases hunks.getLast? <;> rfl
    rw [List.flatMap_cons, List.foldl_append, List.map_cons, isOpenBehind]
    rwa [List.append_assoc, List.singleton_append] at rest

/-- The lines of a header. When a hunk is open, the first of them ends it. -/
theorem Reached.header (reached : Reached state false isOpen begun) {header : List TextLine}
    (plain : ∀ line ∈ header, line.text.head? ≠ some 0x40)
    (separated : isOpen = true → ∀ line ∈ header.head?, line.Separates) :
    Reached ((header.map TextLine.bytes).foldl stepLine state)
      (swallowsNext (header.map TextLine.bytes)) (isOpen && header.isEmpty) begun := by
  induction header using List.reverseRecOn with
  | nil =>
    rw [List.isEmpty_nil, Bool.and_true]
    exact reached
  | append_singleton header line inductionHypothesis =>
    have before := inductionHypothesis (fun other isIn => plain other (List.mem_append_left _ isIn))
      fun wasOpen other isHead => separated wasOpen other (by
        rw [List.head?_append, show header.head? = some other from isHead]
        rfl)
    have notHunk := plain line (by simp)
    rw [List.map_append, List.map_singleton, List.foldl_append, List.foldl_cons, List.foldl_nil,
      swallowsNext_snoc, show (header ++ [line]).isEmpty = false by simp, Bool.and_false]
    obtain ⟨c, rest, isBytes⟩ := List.exists_cons_of_ne_nil
      (show line.bytes ≠ [] by simp [TextLine.bytes])
    rw [isBytes]
    refine before.other ?_ ?_
    · rintro rfl
      cases isText : line.text with
      | nil =>
        rw [TextLine.bytes, isText] at isBytes
        exact absurd isBytes (by simp)
      | cons first text =>
        rw [TextLine.bytes, isText] at isBytes
        rw [isText] at notHunk
        exact notHunk (congrArg some (List.cons.inj isBytes).1)
    · intro stillOpen
      rw [Bool.and_eq_true, List.isEmpty_iff] at stillOpen
      obtain ⟨wasOpen, rfl⟩ := stillOpen
      have separates := separated wasOpen line rfl
      cases isText : line.text with
      | nil =>
        rw [TextLine.bytes, isText] at isBytes
        obtain ⟨rfl, -⟩ := List.cons.inj isBytes
        unfold IsBody
        decide
      | cons first text =>
        rw [TextLine.bytes, isText] at isBytes
        obtain ⟨rfl, -⟩ := List.cons.inj isBytes
        obtain ⟨-, notCommon, notNew, notOld, -⟩ := separates first (by rw [isText]; rfl)
        rintro (isNew | isOld | isCommon)
        · exact notNew isNew
        · exact notOld isOld
        · exact notCommon isCommon

/-- A file. The hunks that are found are begun. -/
theorem Reached.file (reached : Reached state false isOpen begun) (file : FileDiff)
    (separated : isOpen = true → ∀ line ∈ file.header.head?, line.Separates) :
    Reached (file.lines.foldl stepLine state) false (openBehind file.found false)
      (begun ++ file.found.map fun hunk => bodyTexts (seen hunk.body)) := by
  have behindHeader := reached.header file.plain separated
  rw [FileDiff.lines, List.foldl_append, FileDiff.found, FileDiff.hides]
  obtain ⟨first, hunks, isHunks⟩ := List.exists_cons_of_ne_nil file.nonempty
  cases hides : swallowsNext (file.header.map TextLine.bytes) with
  | true =>
    rw [hides] at behindHeader
    rw [isHunks, List.flatMap_cons, List.foldl_append]
    exact (behindHeader.hiddenHunk first).hunks hunks
  | false =>
    rw [hides] at behindHeader
    have rest := behindHeader.hunks file.hunks
    have isBehind : openBehind file.hunks (isOpen && file.header.isEmpty) =
        openBehind file.hunks false := by
      rw [openBehind, openBehind, isHunks, List.getLast?_cons]
      rfl
    rwa [isBehind] at rest

/-- Whether a hunk is open behind some files. -/
def openBehindFiles (files : List FileDiff) (isOpen : Bool) : Bool :=
  files.getLast?.elim isOpen fun file => openBehind file.found false

theorem Reached.files (files : List FileDiff) :
    ∀ {state : Bool × Hunks} {isOpen : Bool} {begun : List (List UInt8 × List UInt8)},
      Reached state false isOpen begun →
      (isOpen = true → ∀ file ∈ files.head?, ∀ line ∈ file.header.head?, line.Separates) →
      (∀ file ∈ files.tail, ∃ line ∈ file.header.head?, line.Separates) →
      Reached ((files.flatMap FileDiff.lines).foldl stepLine state) false
        (openBehindFiles files isOpen)
        (begun ++ (files.flatMap FileDiff.found).map fun hunk => bodyTexts (seen hunk.body)) := by
  induction files with
  | nil =>
    intro state isOpen begun reached _ _
    rw [List.flatMap_nil, List.flatMap_nil, List.map_nil, List.append_nil]
    exact reached
  | cons file files inductionHypothesis =>
    intro state isOpen begun reached first separated
    have behind := reached.file file fun wasOpen => first wasOpen file rfl
    have rest := inductionHypothesis behind
      (fun _ next isNext line isLine => by
        obtain ⟨line', isLine', separates⟩ := separated next (List.mem_of_mem_head? isNext)
        rwa [Option.mem_unique isLine isLine'])
      (fun next isNext => separated next (List.mem_of_mem_tail isNext))
    have isBehind : openBehindFiles (file :: files) isOpen =
        openBehindFiles files (openBehind file.found false) := by
      rw [openBehindFiles, openBehindFiles, List.getLast?_cons]
      cases files.getLast? <;> rfl
    rw [List.flatMap_cons, List.foldl_append, List.flatMap_cons, List.map_append, isBehind]
    rwa [List.append_assoc] at rest

/-! ### The whole diff -/

/-- A line with its line feed. -/
def Terminated (line : List UInt8) : Prop := IsLine line ∧ line.getLast? = some 10

theorem TextLine.terminated (line : TextLine) : Terminated line.bytes := by
  refine ⟨⟨by simp [TextLine.bytes], ?_⟩, by simp [TextLine.bytes]⟩
  rw [TextLine.bytes, List.dropLast_concat]
  exact line.plain

theorem TextLine.terminated_cons (line : TextLine) {c : UInt8} (notNewline : c ≠ 10) :
    Terminated (c :: line.bytes) := by
  refine ⟨⟨List.cons_ne_nil _ _, ?_⟩, by
    rw [TextLine.bytes, ← List.cons_append, List.getLast?_concat]⟩
  rw [TextLine.bytes, ← List.cons_append, List.dropLast_concat, List.mem_cons, not_or]
  exact ⟨Ne.symm notNewline, line.plain⟩

theorem noNewlineText_terminated : Terminated noNewlineText :=
  ⟨⟨by decide +kernel, by decide +kernel⟩, by decide +kernel⟩

/-- Every line of a diff has its line feed. -/
theorem UnifiedDiff.terminated (diff : UnifiedDiff) : ∀ line ∈ diff.lines, Terminated line := by
  intro line isLine
  rcases List.mem_append.mp isLine with inFiles | inTrailer
  · obtain ⟨file, -, isLine⟩ := List.mem_flatMap.mp inFiles
    rcases List.mem_append.mp isLine with inHeader | inHunks
    · obtain ⟨text, -, rfl⟩ := List.mem_map.mp inHeader
      exact text.terminated
    · obtain ⟨hunk, -, isLine⟩ := List.mem_flatMap.mp inHunks
      rcases List.mem_cons.mp isLine with rfl | inBody
      · exact hunk.counts.terminated_cons (by decide)
      · obtain ⟨body, -, isLine⟩ := List.mem_flatMap.mp inBody
        rcases List.mem_cons.mp isLine with rfl | isMark
        · exact body.text.terminated_cons (by cases body.kind <;> decide)
        · split at isMark
          · rw [List.mem_singleton.mp isMark]
            exact noNewlineText_terminated
          · contradiction
  · obtain ⟨text, -, rfl⟩ := List.mem_map.mp inTrailer
    exact text.terminated

/-- The splitter, in terms of single lines. -/
theorem splitLinesOf_fold {lines : List (List UInt8)}
    (terminated : ∀ line ∈ lines, Terminated line) :
    lines.foldl stepLine (false, initialHunks) =
      (swallowsNext lines, (splitLinesOf lines).hunks) := by
  induction lines using List.reverseRecOn with
  | nil => rfl
  | append_singleton lines line inductionHypothesis =>
    have areLines : AreLines (lines ++ [line]) := by
      refine ⟨fun other isIn => (terminated other isIn).1, fun other isIn => ?_⟩
      exact (terminated other ((List.dropLast_sublist _).subset isIn)).2
    rw [List.foldl_append, inductionHypothesis fun other isIn =>
      terminated other (List.mem_append_left _ isIn), splitLinesOf_hunks areLines,
      swallowsNext_snoc]
    rfl

theorem UnifiedDiff.reached (diff : UnifiedDiff) :
    Reached (diff.lines.foldl stepLine (false, initialHunks))
      (swallowsNext (diff.trailer.map TextLine.bytes))
      (openBehindFiles diff.files false && diff.trailer.isEmpty)
      ((diff.files.flatMap FileDiff.found).map fun hunk => bodyTexts (seen hunk.body)) := by
  have starts : Reached (false, initialHunks) false false [] :=
    ⟨rfl, rfl, rfl, fun _ => ⟨rfl, rfl⟩, nofun⟩
  have behindFiles := starts.files diff.files (fun absurd' => nomatch absurd') diff.separated
  rw [List.nil_append] at behindFiles
  rw [UnifiedDiff.lines, List.foldl_append]
  refine behindFiles.header diff.plain fun isOpen => diff.ended ?_
  rintro noFiles
  rw [noFiles] at isOpen
  contradiction

/-- The texts that are compared: the hunks that are found, up to the first line without a newline,
and nothing with nothing when no hunk is open at the end. -/
theorem compared_splitDiffInput (diff : UnifiedDiff) :
    compared (splitDiffInput diff.text) =
      ((diff.files.flatMap FileDiff.found).map fun hunk => bodyTexts (seen hunk.body)) ++
        if openBehindFiles diff.files false && diff.trailer.isEmpty then [] else [([], [])] := by
  have reached := diff.reached
  rw [splitLinesOf_fold diff.terminated] at reached
  obtain ⟨-, -, isBegun, isClosed, -⟩ := reached
  dsimp only at isBegun isClosed
  have unfolded : compared (splitDiffInput diff.text) =
      compared (splitLinesOf diff.lines).hunks.calls ++
        [((splitLinesOf diff.lines).hunks.oldFile, (splitLinesOf diff.lines).hunks.newFile)] := by
    rw [splitDiffInput, UnifiedDiff.text]
    exact compared_append _ _
  rw [unfolded, ← isBegun]
  cases isOpen : openBehindFiles diff.files false && diff.trailer.isEmpty with
  | true => simp
  | false =>
    obtain ⟨oldFile, newFile⟩ := isClosed isOpen
    rw [oldFile, newFile]
    simp

/-! ### When every hunk is compared -/

/-- The conditions under which every hunk is compared as a whole, and nothing else. -/
structure UnifiedDiff.Followed (diff : UnifiedDiff) : Prop where
  found : ∀ file ∈ diff.files, Even (emptyAtEnd (file.header.map TextLine.bytes))
  whole : ∀ hunk ∈ diff.hunks, ∀ line ∈ hunk.body.dropLast, line.noNewline = false
  ends : diff.trailer = [] ∧ ∃ hunk ∈ diff.hunks.getLast?, ∀ line ∈ hunk.body.getLast?,
    line.noNewline = false

theorem FileDiff.hides_iff (file : FileDiff) :
    file.hides = false ↔ Even (emptyAtEnd (file.header.map TextLine.bytes)) := by
  rw [FileDiff.hides, ← Nat.not_odd_iff_even, ← swallowsNext_iff, Bool.not_eq_true]

theorem bodyTexts_append (body more : List BodyLine) :
    bodyTexts (body ++ more) =
      ((bodyTexts body).1 ++ (bodyTexts more).1, (bodyTexts body).2 ++ (bodyTexts more).2) := by
  simp [bodyTexts]

theorem bodyTexts_eq_nil {body : List BodyLine} (isEmpty : bodyTexts body = ([], [])) :
    body = [] := by
  cases body with
  | nil => rfl
  | cons line body =>
    simp only [bodyTexts, List.flatMap_cons, Prod.mk.injEq, List.append_eq_nil_iff] at isEmpty
    obtain ⟨⟨noOld, -⟩, noNew, -⟩ := isEmpty
    unfold BodyLine.oldText at noOld
    unfold BodyLine.newText at noNew
    cases isKind : line.kind <;> simp [isKind] at noOld noNew

/-- What is not seen of a hunk. -/
theorem exists_seen_append (body : List BodyLine) : ∃ rest, body = seen body ++ rest := by
  induction body with
  | nil => exact ⟨[], rfl⟩
  | cons line body inductionHypothesis =>
    obtain ⟨rest, isBody⟩ := inductionHypothesis
    rw [seen]
    split
    · exact ⟨body, rfl⟩
    · exact ⟨rest, by rw [List.cons_append, ← isBody]⟩

theorem seen_eq_iff (body : List BodyLine) :
    seen body = body ↔ ∀ line ∈ body.dropLast, line.noNewline = false := by
  induction body with
  | nil => simp [seen]
  | cons line body inductionHypothesis =>
    cases body with
    | nil => simp [seen]
    | cons next body =>
      rw [seen, List.dropLast_cons_of_ne_nil (List.cons_ne_nil _ _), List.forall_mem_cons,
        ← inductionHypothesis]
      cases line.noNewline <;> simp

theorem bodyTexts_seen_iff (body : List BodyLine) :
    bodyTexts (seen body) = bodyTexts body ↔ ∀ line ∈ body.dropLast, line.noNewline = false := by
  rw [← seen_eq_iff]
  refine ⟨fun same => ?_, fun same => by rw [same]⟩
  obtain ⟨rest, isBody⟩ := exists_seen_append body
  have texts := bodyTexts_append (seen body) rest
  rw [← isBody, ← same] at texts
  have isEmpty : bodyTexts rest = ([], []) := by
    have first := congrArg Prod.fst texts
    have second := congrArg Prod.snd texts
    exact Prod.ext (List.self_eq_append_right.mp first) (List.self_eq_append_right.mp second)
  rw [bodyTexts_eq_nil isEmpty, List.append_nil] at isBody
  exact isBody.symm

/-- No hunk is hidden when as many are found as there are. -/
theorem found_length (files : List FileDiff) :
    (files.flatMap FileDiff.found).length ≤ (files.flatMap FileDiff.hunks).length ∧
      ((files.flatMap FileDiff.found).length = (files.flatMap FileDiff.hunks).length →
        ∀ file ∈ files, file.hides = false) := by
  induction files with
  | nil => exact ⟨Nat.le_refl _, fun _ => nofun⟩
  | cons file files inductionHypothesis =>
    obtain ⟨le, all⟩ := inductionHypothesis
    have one : 0 < file.hunks.length := List.length_pos_of_ne_nil file.nonempty
    rw [List.flatMap_cons, List.flatMap_cons, List.length_append, List.length_append,
      FileDiff.found, List.forall_mem_cons]
    cases file.hides with
    | true =>
      rw [if_pos rfl, List.length_tail]
      exact ⟨by omega, fun same => by omega⟩
    | false =>
      rw [if_neg Bool.false_ne_true]
      exact ⟨by omega, fun same => ⟨rfl, all (by omega)⟩⟩

theorem found_eq {files : List FileDiff} (all : ∀ file ∈ files, file.hides = false) :
    files.flatMap FileDiff.found = files.flatMap FileDiff.hunks := by
  refine List.flatMap_congr fun file isIn => ?_
  rw [FileDiff.found, all file isIn, if_neg Bool.false_ne_true]

theorem openBehindFiles_eq {files : List FileDiff} (all : ∀ file ∈ files, file.hides = false) :
    openBehindFiles files false = openBehind (files.flatMap FileDiff.hunks) false := by
  rcases List.eq_nil_or_concat' files with rfl | ⟨files, file, rfl⟩
  · rfl
  · have isFound : file.found = file.hunks := by
      rw [FileDiff.found, all file (by simp), if_neg Bool.false_ne_true]
    obtain ⟨hunk, isLast⟩ : ∃ hunk, file.hunks.getLast? = some hunk :=
      ⟨_, List.getLast?_eq_some_getLast file.nonempty⟩
    rw [openBehindFiles, List.getLast?_concat, openBehind, List.flatMap_append,
      List.flatMap_singleton, List.getLast?_append, isLast]
    show openBehind file.found false = _
    rw [isFound, openBehind, isLast]
    rfl

/-- A hunk of which nothing is cut off is open behind its last line, unless that has no newline. -/
theorem isCut_iff {hunk : Hunk} (whole : ∀ line ∈ hunk.body.dropLast, line.noNewline = false) :
    hunk.isCut = false ↔ ∀ line ∈ hunk.body.getLast?, line.noNewline = false := by
  rcases List.eq_nil_or_concat' hunk.body with isEmpty | ⟨body, last, isBody⟩
  · exact absurd isEmpty hunk.nonempty
  · rw [isBody, List.dropLast_concat] at whole
    rw [Hunk.isCut, isBody, List.getLast?_concat, List.any_append, List.any_eq_false.mpr fun line
      isIn => by rw [whole line isIn]; exact Bool.false_ne_true]
    simp

/-- Every hunk is compared as a whole, and nothing else is compared, exactly when no header hides a
hunk, a line that says that there is no newline only comes behind the last line of a hunk, and the
diff ends with a line of a hunk. -/
theorem unifiedDiff_followed_iff (diff : UnifiedDiff) :
    compared (splitDiffInput diff.text) = diff.hunks.map (fun hunk => bodyTexts hunk.body) ↔
      diff.Followed := by
  rw [compared_splitDiffInput]
  constructor
  · intro same
    cases isOpen : openBehindFiles diff.files false && diff.trailer.isEmpty with
    | false =>
      -- The last hunk would have no lines.
      rw [isOpen, if_neg Bool.false_ne_true] at same
      have last := congrArg List.getLast? same
      rw [List.getLast?_concat, List.getLast?_map] at last
      obtain ⟨hunk, -, isEmpty⟩ := Option.map_eq_some_iff.mp last.symm
      exact absurd (bodyTexts_eq_nil isEmpty) hunk.nonempty
    | true =>
      rw [isOpen, if_pos rfl, List.append_nil] at same
      have length := congrArg List.length same
      rw [List.length_map, List.length_map] at length
      have shown := (found_length diff.files).2 length
      rw [found_eq shown] at same
      have whole : ∀ hunk ∈ diff.hunks, ∀ line ∈ hunk.body.dropLast, line.noNewline = false :=
        fun hunk isIn => (bodyTexts_seen_iff hunk.body).mp (List.map_inj_left.mp same hunk isIn)
      rw [openBehindFiles_eq shown, Bool.and_eq_true, List.isEmpty_iff] at isOpen
      refine ⟨fun file isIn => file.hides_iff.mp (shown file isIn), whole, isOpen.2, ?_⟩
      cases isLast : diff.hunks.getLast? with
      | none =>
        rw [openBehind, ← UnifiedDiff.hunks, isLast] at isOpen
        exact absurd isOpen.1 Bool.false_ne_true
      | some hunk =>
        rw [openBehind, ← UnifiedDiff.hunks, isLast] at isOpen
        refine ⟨hunk, rfl, (isCut_iff (whole hunk (List.mem_of_getLast? isLast))).mp ?_⟩
        exact Bool.not_eq_true' _ |>.mp isOpen.1
  · rintro ⟨found, whole, noTrailer, hunk, isLast, ends⟩
    have shown : ∀ file ∈ diff.files, file.hides = false := fun file isIn =>
      file.hides_iff.mpr (found file isIn)
    have isOpen : (openBehindFiles diff.files false && diff.trailer.isEmpty) = true := by
      rw [openBehindFiles_eq shown, ← UnifiedDiff.hunks, openBehind,
        show diff.hunks.getLast? = some hunk from isLast, noTrailer]
      show (!hunk.isCut && true) = true
      rw [(isCut_iff (whole hunk (List.mem_of_getLast? isLast))).mpr ends]
      rfl
    rw [isOpen, if_pos rfl, List.append_nil, found_eq shown]
    exact List.map_inj_left.mpr fun hunk isIn => (bodyTexts_seen_iff hunk.body).mpr
      (whole hunk isIn)

/-- A line that was replaced by one with a newline: the new line is not compared. -/
def newlineAdded : UnifiedDiff where
  files := [⟨[], [⟨⟨[0x40], by decide⟩, [⟨.old, ⟨[97], by decide⟩, true⟩,
    ⟨.new, ⟨[98], by decide⟩, false⟩], nofun⟩], nofun, nofun⟩]
  trailer := []
  plain := nofun
  separated := nofun
  ended := fun _ => nofun

theorem splitDiffInput_noNewline :
    compared (splitDiffInput newlineAdded.text) ≠
      newlineAdded.hunks.map (fun hunk => bodyTexts hunk.body) := by
  decide +kernel

end Dwdiff
