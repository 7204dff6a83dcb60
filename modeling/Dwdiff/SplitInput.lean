/-
This file models `splitDiffInput` of `dwdiff.c`, which splits the output of
`diff -u` into hunks. It reads character by character and keeps a mode; the
calls it makes are recorded in order, since nothing in it looks at what became of
them. The file compares the splitter with one that works line by line. The two
differ in what follows an empty line.
-/

import Dwdiff.Stream
import Mathlib.Algebra.Ring.Parity
import Mathlib.Data.List.Basic
import Mathlib.Data.List.Induction

namespace Dwdiff

variable {splitter : Splitter} {lines : List (List UInt8)}

inductive DiffInputMode where
  | firstHeader
  | first
  | old
  | new
  | common
  | header
  | lineCounts
  deriving DecidableEq, Repr

/-- The calls of `splitDiffInput`: a character is echoed, or the two temporary files that were
written so far are compared. -/
inductive SplitCall where
  | putchar (c : UInt8)
  | prepareAndExecuteDiff (old new : List UInt8)
  deriving DecidableEq, Repr

/-- The variables of `splitDiffInput`, with the calls made so far. -/
structure Splitter where
  mode : DiffInputMode
  oldFile : List UInt8
  newFile : List UInt8
  calls : List SplitCall
  deriving DecidableEq, Repr

def initialSplitter : Splitter := ⟨.firstHeader, [], [], []⟩

/-- The body of the loop of `splitDiffInput`. -/
def Splitter.next (splitter : Splitter) (c : UInt8) : Splitter :=
  match splitter.mode with
  | .firstHeader =>
    { splitter with
      calls := splitter.calls ++ [.putchar c]
      mode := if c ≠ 0x40 then .header else .lineCounts }
  | .first =>
    if c = 0x2B then { splitter with newFile := splitter.newFile ++ [0x20], mode := .new }
    else if c = 0x2D then { splitter with oldFile := splitter.oldFile ++ [0x20], mode := .old }
    else if c = 0x20 then
      { splitter with
        oldFile := splitter.oldFile ++ [0x20]
        newFile := splitter.newFile ++ [0x20]
        mode := .common }
    else
      { mode := if c = 0x40 then .lineCounts else .header
        oldFile := []
        newFile := []
        calls := splitter.calls ++
          [.prepareAndExecuteDiff splitter.oldFile splitter.newFile, .putchar c] }
  | .old =>
    { splitter with
      oldFile := splitter.oldFile ++ [c]
      mode := if c = 10 then .first else .old }
  | .new =>
    { splitter with
      newFile := splitter.newFile ++ [c]
      mode := if c = 10 then .first else .new }
  | .common =>
    { splitter with
      oldFile := splitter.oldFile ++ [c]
      newFile := splitter.newFile ++ [c]
      mode := if c = 10 then .first else .common }
  | .header =>
    { splitter with
      calls := splitter.calls ++ [.putchar c]
      mode := if c = 10 then .firstHeader else .header }
  | .lineCounts =>
    { splitter with
      calls := splitter.calls ++ [.putchar c]
      mode := if c = 10 then .first else .lineCounts }

/-- The loop of `splitDiffInput`. -/
def Splitter.run (splitter : Splitter) (input : List UInt8) : Splitter :=
  input.foldl Splitter.next splitter

/-- `splitDiffInput`. What is in the temporary files at the end of the input is compared, whether
or not a hunk was begun. -/
def splitDiffInput (input : List UInt8) : List SplitCall :=
  let splitter := initialSplitter.run input
  splitter.calls ++ [.prepareAndExecuteDiff splitter.oldFile splitter.newFile]

/-! ### Line by line -/

/-- What a splitter has done so far: whether a hunk is open, the text of the hunk, and the
calls. -/
structure Hunks where
  isOpen : Bool
  oldFile : List UInt8
  newFile : List UInt8
  calls : List SplitCall
  deriving DecidableEq, Repr

def initialHunks : Hunks := ⟨false, [], [], []⟩

def Hunks.echo (hunks : Hunks) (line : List UInt8) : Hunks :=
  { hunks with calls := hunks.calls ++ line.map .putchar }

/-- The hunk is compared. -/
def Hunks.close (hunks : Hunks) : Hunks where
  isOpen := false
  oldFile := []
  newFile := []
  calls := hunks.calls ++ [.prepareAndExecuteDiff hunks.oldFile hunks.newFile]

/-- A line, treated according to its first character and to whether a hunk is open. -/
def Hunks.line (hunks : Hunks) : List UInt8 → Hunks
  | [] => hunks
  | c :: rest =>
    if hunks.isOpen ∧ c = 0x2B then { hunks with newFile := hunks.newFile ++ 0x20 :: rest }
    else if hunks.isOpen ∧ c = 0x2D then { hunks with oldFile := hunks.oldFile ++ 0x20 :: rest }
    else if hunks.isOpen ∧ c = 0x20 then
      { hunks with
        oldFile := hunks.oldFile ++ 0x20 :: rest
        newFile := hunks.newFile ++ 0x20 :: rest }
    else
      { (if hunks.isOpen then hunks.close else hunks).echo (c :: rest) with
        isOpen := c == 0x40 }

/-- The splitter that works line by line. -/
def lineByLine (input : List UInt8) : Hunks := (linesOf input).foldl Hunks.line initialHunks

/-- Whether a hunk is open. -/
def DiffInputMode.inHunk : DiffInputMode → Bool
  | .firstHeader => false
  | .header => false
  | _ => true

def Splitter.hunks (splitter : Splitter) : Hunks :=
  ⟨splitter.mode.inHunk, splitter.oldFile, splitter.newFile, splitter.calls⟩

/-- The number of empty lines at the end. -/
def emptyAtEnd (lines : List (List UInt8)) : Nat :=
  (lines.reverse.takeWhile fun line => line == [10]).length

/-! ### Inside a line -/

/-- Only the last character of a line can be a line feed. -/
structure IsLine (line : List UInt8) : Prop where
  nonempty : line ≠ []
  inner : 10 ∉ line.dropLast

/-- The mode is one that the rest of a line is read in. -/
def DiffInputMode.Within (mode : DiffInputMode) : Prop := mode ≠ .firstHeader ∧ mode ≠ .first

/-- The mode behind the line feed. -/
def DiffInputMode.behind (mode : DiffInputMode) : DiffInputMode :=
  if mode = .header then .firstHeader else .first

/-- What becomes of the rest of a line. -/
def Splitter.take (splitter : Splitter) (rest : List UInt8) : Splitter :=
  match splitter.mode with
  | .old => { splitter with oldFile := splitter.oldFile ++ rest }
  | .new => { splitter with newFile := splitter.newFile ++ rest }
  | .common => { splitter with
      oldFile := splitter.oldFile ++ rest, newFile := splitter.newFile ++ rest }
  | _ => { splitter with calls := splitter.calls ++ rest.map .putchar }

theorem Splitter.take_nil (splitter : Splitter) : splitter.take [] = splitter := by
  obtain ⟨mode, oldFile, newFile, calls⟩ := splitter
  cases mode <;> simp [Splitter.take]

theorem Splitter.take_mode (splitter : Splitter) (rest : List UInt8) :
    (splitter.take rest).mode = splitter.mode := by
  obtain ⟨mode, oldFile, newFile, calls⟩ := splitter
  cases mode <;> rfl

theorem Splitter.take_cons (splitter : Splitter) (c : UInt8) (rest : List UInt8) :
    (splitter.take [c]).take rest = splitter.take (c :: rest) := by
  obtain ⟨mode, oldFile, newFile, calls⟩ := splitter
  cases mode <;> simp [Splitter.take]

theorem next_within (within : splitter.mode.Within) (c : UInt8) :
    splitter.next c = { splitter.take [c] with
      mode := if c = 10 then splitter.mode.behind else splitter.mode } := by
  obtain ⟨mode, oldFile, newFile, calls⟩ := splitter
  obtain ⟨notFirstHeader, notFirst⟩ := within
  cases mode with
  | firstHeader => exact absurd rfl notFirstHeader
  | first => exact absurd rfl notFirst
  | _ => rfl

theorem run_within (within : splitter.mode.Within) {rest : List UInt8}
    (inner : 10 ∉ rest.dropLast) :
    splitter.run rest = { splitter.take rest with
      mode := if rest.getLast? = some 10 then splitter.mode.behind else splitter.mode } := by
  induction rest generalizing splitter with
  | nil =>
    rw [Splitter.take_nil]
    rfl
  | cons c rest inductionHypothesis =>
    rw [Splitter.run, List.foldl_cons, next_within within]
    cases rest with
    | nil => simp
    | cons c' rest =>
      rw [List.dropLast_cons_of_ne_nil (List.cons_ne_nil _ _), List.mem_cons, not_or] at inner
      have same : ({ splitter.take [c] with
          mode := if c = 10 then splitter.mode.behind else splitter.mode } : Splitter) =
          splitter.take [c] := by
        rw [if_neg (Ne.symm inner.1), ← Splitter.take_mode splitter [c]]
      rw [same]
      have kept := splitter.take_mode [c]
      refine (inductionHypothesis (kept.symm ▸ within) inner.2).trans ?_
      rw [Splitter.take_cons, kept, List.getLast?_cons_cons]

/-! ### Whole lines -/

/-- The mode between two lines, when the next one is taken for the rest of an empty line or not. -/
def lineStart (swallows isOpen : Bool) : DiffInputMode :=
  if swallows then .header else if isOpen then .first else .firstHeader

/-- A line, as the splitter treats it. -/
def Hunks.lineUnless (hunks : Hunks) (swallows : Bool) (line : List UInt8) : Hunks :=
  if swallows then hunks.echo line else hunks.line line

theorem run_within_hunks (within : splitter.mode.Within) {rest : List UInt8}
    (inner : 10 ∉ rest.dropLast) : (splitter.run rest).hunks = (splitter.take rest).hunks := by
  have same : (if rest.getLast? = some 10 then splitter.mode.behind else splitter.mode).inHunk =
      (splitter.take rest).mode.inHunk := by
    rw [Splitter.take_mode]
    obtain ⟨mode, oldFile, newFile, calls⟩ := splitter
    obtain ⟨notFirstHeader, notFirst⟩ := within
    split
    · cases mode with
      | firstHeader => exact absurd rfl notFirstHeader
      | first => exact absurd rfl notFirst
      | _ => rfl
    · rfl
  rw [run_within within inner, Splitter.hunks, same]
  rfl

/-- A line that is begun in a mode for the rest of it. -/
theorem run_begun {c : UInt8} {rest : List UInt8} (isLine : IsLine (c :: rest))
    (within : (splitter.next c).mode.Within) (newline : c = 10 → (splitter.next c).mode = .header) :
    (splitter.run (c :: rest)).hunks = ((splitter.next c).take rest).hunks ∧
      ((c :: rest).getLast? = some 10 → (splitter.run (c :: rest)).mode =
        if c = 10 then .header else (splitter.next c).mode.behind) := by
  have unfolded : splitter.run (c :: rest) = (splitter.next c).run rest := rfl
  rw [unfolded]
  cases rest with
  | nil =>
    rw [Splitter.take_nil]
    refine ⟨rfl, fun ends => ?_⟩
    obtain rfl : c = 10 := by simpa using ends
    rw [if_pos rfl]
    exact newline rfl
  | cons c' rest =>
    have inner := isLine.inner
    rw [List.dropLast_cons_of_ne_nil (List.cons_ne_nil _ _), List.mem_cons, not_or] at inner
    refine ⟨run_within_hunks within inner.2, fun ends => ?_⟩
    rw [List.getLast?_cons_cons] at ends
    rw [run_within within inner.2, if_pos ends, if_neg (Ne.symm inner.1)]

theorem IsLine.beq_newline {c : UInt8} {rest : List UInt8} (isLine : IsLine (c :: rest)) :
    ((c :: rest) == [10]) = (c == 10) := by
  cases rest with
  | nil => simp
  | cons c' rest =>
    have inner := isLine.inner
    rw [List.dropLast_cons_of_ne_nil (List.cons_ne_nil _ _), List.mem_cons, not_or] at inner
    rw [beq_eq_false_iff_ne.mpr (Ne.symm inner.1)]
    simp

/-- The first character of a line. -/
theorem next_start (starts : splitter.mode = lineStart false splitter.hunks.isOpen) (c : UInt8)
    (rest : List UInt8) :
    (splitter.next c).mode.Within ∧ (c = 10 → (splitter.next c).mode = .header) ∧
      ((splitter.next c).take rest).hunks = splitter.hunks.line (c :: rest) ∧
      (c ≠ 10 → (splitter.next c).mode.behind =
        lineStart false (splitter.hunks.line (c :: rest)).isOpen) := by
  obtain ⟨mode, oldFile, newFile, calls⟩ := splitter
  cases mode with
  | first =>
    by_cases known : c = 0x2B ∨ c = 0x2D ∨ c = 0x20 ∨ c = 0x40
    · rcases known with rfl | rfl | rfl | rfl
      all_goals
        refine ⟨⟨nofun, nofun⟩, fun absurd' => absurd absurd' (by decide), ?_, fun _ => rfl⟩
        simp [Splitter.next, Splitter.take, Splitter.hunks, Hunks.line, Hunks.close, Hunks.echo,
          DiffInputMode.inHunk]
    · obtain ⟨isNew, isOld, isCommon, isHunk⟩ : c ≠ 0x2B ∧ c ≠ 0x2D ∧ c ≠ 0x20 ∧ c ≠ 0x40 := by
        simpa only [not_or] using known
      simp [Splitter.next, Splitter.take, Splitter.hunks, Hunks.line, Hunks.close, Hunks.echo,
        DiffInputMode.inHunk, DiffInputMode.Within, DiffInputMode.behind, lineStart, isNew, isOld,
        isCommon, isHunk]
  | firstHeader =>
    by_cases isHunk : c = 0x40
    · subst isHunk
      refine ⟨⟨nofun, nofun⟩, fun absurd' => absurd absurd' (by decide), ?_, fun _ => rfl⟩
      simp [Splitter.next, Splitter.take, Splitter.hunks, Hunks.line, Hunks.echo,
        DiffInputMode.inHunk]
    · simp [Splitter.next, Splitter.take, Splitter.hunks, Hunks.line, Hunks.echo,
        DiffInputMode.inHunk, DiffInputMode.Within, DiffInputMode.behind, lineStart, isHunk]
  | _ => exact absurd starts (by simp [lineStart, Splitter.hunks, DiffInputMode.inHunk])

/-- What a whole line does, and the mode behind it. -/
theorem run_line {swallows : Bool}
    (starts : splitter.mode = lineStart swallows splitter.hunks.isOpen) {line : List UInt8}
    (isLine : IsLine line) :
    (splitter.run line).hunks = splitter.hunks.lineUnless swallows line ∧
      (line.getLast? = some 10 → (splitter.run line).mode =
        lineStart (!swallows && line == [10])
          (splitter.hunks.lineUnless swallows line).isOpen) := by
  obtain ⟨mode, oldFile, newFile, calls⟩ := splitter
  cases swallows with
  | true =>
    obtain rfl : mode = .header := starts
    have within : DiffInputMode.Within .header := ⟨nofun, nofun⟩
    refine ⟨run_within_hunks within isLine.inner, fun ends => ?_⟩
    rw [run_within within isLine.inner, if_pos ends]
    rfl
  | false =>
    obtain ⟨c, rest, rfl⟩ := List.exists_cons_of_ne_nil isLine.nonempty
    rw [Bool.not_false, Bool.true_and, isLine.beq_newline]
    obtain ⟨within, newline, isHunks, isMode⟩ := next_start starts c rest
    obtain ⟨runs, ends⟩ := run_begun isLine within newline
    refine ⟨runs.trans isHunks, fun terminated => (ends terminated).trans ?_⟩
    by_cases isNewline : c = 10
    · rw [if_pos isNewline, beq_iff_eq.mpr isNewline]
      rfl
    · rw [if_neg isNewline, beq_eq_false_iff_ne.mpr isNewline]
      exact isMode isNewline

/-! ### Sequences of lines -/

/-- Whether the line behind these is taken for the rest of an empty one. -/
def swallowsNext (lines : List (List UInt8)) : Bool :=
  lines.foldl (fun swallows line => !swallows && line == [10]) false

theorem swallowsNext_snoc (lines : List (List UInt8)) (line : List UInt8) :
    swallowsNext (lines ++ [line]) = (!swallowsNext lines && line == [10]) :=
  List.foldl_append

theorem emptyAtEnd_snoc (lines : List (List UInt8)) (line : List UInt8) :
    emptyAtEnd (lines ++ [line]) = if line = [10] then emptyAtEnd lines + 1 else 0 := by
  unfold emptyAtEnd
  rw [List.reverse_append, List.reverse_singleton, List.singleton_append, List.takeWhile_cons]
  by_cases isEmpty : line = [10]
  · rw [if_pos isEmpty, if_pos (beq_iff_eq.mpr isEmpty), List.length_cons]
  · rw [if_neg isEmpty, if_neg (by rwa [beq_iff_eq]), List.length_nil]

theorem swallowsNext_iff (lines : List (List UInt8)) :
    swallowsNext lines = true ↔ Odd (emptyAtEnd lines) := by
  induction lines using List.reverseRecOn with
  | nil => decide
  | append_singleton lines line inductionHypothesis =>
    rw [swallowsNext_snoc, emptyAtEnd_snoc, Bool.and_eq_true, Bool.not_eq_true', beq_iff_eq]
    by_cases isEmpty : line = [10]
    · rw [if_pos isEmpty, Nat.odd_add_one, ← inductionHypothesis, Bool.not_eq_true]
      exact and_iff_left isEmpty
    · rw [if_neg isEmpty]
      exact iff_of_false (fun both => isEmpty both.2) (by decide)

/-- The lines of a text: all but the last one end with a line feed. -/
structure AreLines (lines : List (List UInt8)) : Prop where
  isLine : ∀ line ∈ lines, IsLine line
  terminated : ∀ line ∈ lines.dropLast, line.getLast? = some 10

theorem AreLines.init {line : List UInt8} (areLines : AreLines (lines ++ [line])) :
    AreLines lines ∧ IsLine line ∧ ∀ other ∈ lines, other.getLast? = some 10 := by
  have terminated := areLines.terminated
  rw [List.dropLast_concat] at terminated
  refine ⟨⟨fun other isIn => areLines.isLine other (List.mem_append_left _ isIn), ?_⟩,
    areLines.isLine line (by simp), terminated⟩
  exact fun other isIn => terminated other ((List.dropLast_sublist _).subset isIn)

theorem linesOf_areLines (input : List UInt8) : AreLines (linesOf input) := by
  induction input with
  | nil => exact ⟨List.forall_mem_nil _, List.forall_mem_nil _⟩
  | cons c rest inductionHypothesis =>
    obtain ⟨isLine, terminated⟩ := inductionHypothesis
    rw [linesOf]
    split
    · next isNewline =>
      subst isNewline
      refine ⟨?_, ?_⟩
      · rw [List.forall_mem_cons]
        exact ⟨⟨List.cons_ne_nil _ _, List.not_mem_nil⟩, isLine⟩
      · cases isLines : linesOf rest with
        | nil => exact List.forall_mem_nil _
        | cons line lines =>
          rw [isLines] at terminated
          rw [List.dropLast_cons_of_ne_nil (List.cons_ne_nil _ _), List.forall_mem_cons]
          exact ⟨rfl, terminated⟩
    · next notNewline =>
      cases isLines : linesOf rest with
      | nil =>
        refine ⟨?_, List.forall_mem_nil _⟩
        rw [List.forall_mem_singleton]
        exact ⟨List.cons_ne_nil _ _, List.not_mem_nil⟩
      | cons line lines =>
        rw [isLines, List.forall_mem_cons] at isLine
        rw [isLines] at terminated
        have nonempty := isLine.1.nonempty
        refine ⟨?_, ?_⟩
        · rw [List.forall_mem_cons]
          refine ⟨⟨List.cons_ne_nil _ _, ?_⟩, isLine.2⟩
          rw [List.dropLast_cons_of_ne_nil nonempty, List.mem_cons, not_or]
          exact ⟨Ne.symm notNewline, isLine.1.inner⟩
        · cases lines with
          | nil => exact List.forall_mem_nil _
          | cons next lines =>
            rw [List.dropLast_cons_of_ne_nil (List.cons_ne_nil _ _), List.forall_mem_cons]
              at terminated ⊢
            refine ⟨?_, terminated.2⟩
            obtain ⟨c', line', rfl⟩ := List.exists_cons_of_ne_nil nonempty
            rw [List.getLast?_cons_cons]
            exact terminated.1

/-- The splitter behind a sequence of lines. -/
def splitLinesOf (lines : List (List UInt8)) : Splitter := initialSplitter.run lines.flatten

theorem splitLinesOf_snoc (lines : List (List UInt8)) (line : List UInt8) :
    splitLinesOf (lines ++ [line]) = (splitLinesOf lines).run line := by
  unfold splitLinesOf Splitter.run
  rw [List.flatten_append, List.flatten_singleton, List.foldl_append]

/-- Between two lines. -/
theorem splitLinesOf_mode (areLines : AreLines lines)
    (terminated : ∀ line ∈ lines, line.getLast? = some 10) :
    (splitLinesOf lines).mode =
      lineStart (swallowsNext lines) (splitLinesOf lines).hunks.isOpen := by
  induction lines using List.reverseRecOn with
  | nil => rfl
  | append_singleton lines line inductionHypothesis =>
    obtain ⟨before, isLine, all⟩ := areLines.init
    obtain ⟨isHunks, isMode⟩ := run_line (inductionHypothesis before all) isLine
    rw [splitLinesOf_snoc, swallowsNext_snoc, isHunks]
    exact isMode (terminated line (by simp))

theorem splitLinesOf_hunks {line : List UInt8} (areLines : AreLines (lines ++ [line])) :
    (splitLinesOf (lines ++ [line])).hunks =
      (splitLinesOf lines).hunks.lineUnless (swallowsNext lines) line := by
  obtain ⟨before, isLine, all⟩ := areLines.init
  rw [splitLinesOf_snoc]
  exact (run_line (splitLinesOf_mode before all) isLine).1

/-! ### Single lines -/

section Lines

variable {hunks : Hunks} {c : UInt8} {rest : List UInt8}

/-- The first character is that of a line of a hunk. -/
def IsBody (c : UInt8) : Prop := c = 0x2B ∨ c = 0x2D ∨ c = 0x20

theorem Hunks.line_outside (isClosed : hunks.isOpen = false) (c : UInt8) (rest : List UInt8) :
    hunks.line (c :: rest) = { hunks.echo (c :: rest) with isOpen := c == 0x40 } := by
  simp [Hunks.line, isClosed]

theorem Hunks.line_ends (isOpen : hunks.isOpen = true) (other : ¬ IsBody c) (rest : List UInt8) :
    hunks.line (c :: rest) = { hunks.close.echo (c :: rest) with isOpen := c == 0x40 } := by
  obtain ⟨notNew, notOld, notCommon⟩ : c ≠ 0x2B ∧ c ≠ 0x2D ∧ c ≠ 0x20 := by
    rwa [IsBody, not_or, not_or] at other
  simp [Hunks.line, isOpen, notNew, notOld, notCommon]

/-- A line of a hunk changes only the temporary files. -/
theorem Hunks.line_body (isOpen : hunks.isOpen = true) (isBody : IsBody c) (rest : List UInt8) :
    ∃ oldFile newFile, hunks.line (c :: rest) =
      { hunks with oldFile := oldFile, newFile := newFile } := by
  obtain rfl | rfl | rfl := isBody
  · exact ⟨hunks.oldFile, hunks.newFile ++ 0x20 :: rest, by simp [Hunks.line, isOpen]⟩
  · exact ⟨hunks.oldFile ++ 0x20 :: rest, hunks.newFile, by simp [Hunks.line, isOpen]⟩
  · exact ⟨hunks.oldFile ++ 0x20 :: rest, hunks.newFile ++ 0x20 :: rest,
      by simp [Hunks.line, isOpen]⟩

end Lines

/-! ### The number of hunks -/

/-- The hunks that were compared, and the one that is open. -/
def Hunks.begun (hunks : Hunks) : Nat :=
  (hunks.calls.countP fun call => call matches .prepareAndExecuteDiff ..) + hunks.isOpen.toNat

theorem Hunks.begun_echo (hunks : Hunks) (line : List UInt8) (isOpen : Bool) :
    Hunks.begun { hunks.echo line with isOpen := isOpen } + hunks.isOpen.toNat =
      hunks.begun + isOpen.toNat := by
  have none : (line.map SplitCall.putchar).countP
      (fun call => call matches .prepareAndExecuteDiff ..) = 0 := by
    rw [List.countP_map, List.countP_eq_zero]
    exact fun _ _ => Bool.false_ne_true
  simp only [Hunks.begun, Hunks.echo, List.countP_append, none]
  omega

theorem Hunks.begun_close {hunks : Hunks} (isOpen : hunks.isOpen = true) :
    hunks.close.begun = hunks.begun := by
  simp [Hunks.begun, Hunks.close, List.countP_append, isOpen]

/-- Line by line, every line with an at sign begins a hunk. -/
theorem Hunks.begun_line (hunks : Hunks) (line : List UInt8) :
    (hunks.line line).begun = hunks.begun + if line.head? = some 0x40 then 1 else 0 := by
  cases line with
  | nil => rfl
  | cons c rest =>
    have toNat : (c == 0x40).toNat = if (c :: rest).head? = some 0x40 then 1 else 0 := by
      by_cases isHunk : c = 0x40 <;> simp [isHunk]
    rw [← toNat]
    cases isOpen : hunks.isOpen with
    | false =>
      have echoed := hunks.begun_echo (c :: rest) (c == 0x40)
      rwa [isOpen, Bool.toNat_false, Nat.add_zero, ← Hunks.line_outside isOpen] at echoed
    | true =>
      by_cases isBody : IsBody c
      · obtain ⟨oldFile, newFile, isLine⟩ := Hunks.line_body isOpen isBody rest
        have notHunk : (c == 0x40) = false := by
          obtain rfl | rfl | rfl := isBody <;> rfl
        rw [isLine, notHunk]
        rfl
      · have echoed := hunks.close.begun_echo (c :: rest) (c == 0x40)
        rwa [← Hunks.line_ends isOpen isBody, Hunks.begun_close isOpen] at echoed

/-! ### The two splitters -/

/-- As long as no line with an at sign is swallowed, both splitters do the same. -/
theorem splitLinesOf_eq (areLines : AreLines lines)
    (inStep : ∀ before line after, lines = before ++ line :: after → line.head? = some 0x40 →
      swallowsNext before = false) :
    (splitLinesOf lines).hunks = lines.foldl Hunks.line initialHunks := by
  induction lines using List.reverseRecOn with
  | nil => rfl
  | append_singleton lines line inductionHypothesis =>
    obtain ⟨before, isLine, all⟩ := areLines.init
    have same := inductionHypothesis before fun first other after isLines =>
      inStep first other (after ++ [line]) (by rw [isLines]; simp)
    rw [splitLinesOf_hunks areLines, List.foldl_append, ← same]
    cases swallows : swallowsNext lines with
    | false => rfl
    | true =>
      -- Behind an empty line no hunk is open, so that any other line is echoed as well.
      have isClosed : (splitLinesOf lines).hunks.isOpen = false := by
        have isMode := splitLinesOf_mode before all
        rw [swallows] at isMode
        exact congrArg DiffInputMode.inHunk isMode
      obtain ⟨c, rest, rfl⟩ := List.exists_cons_of_ne_nil isLine.nonempty
      have notHunk : (c == 0x40) = false := by
        refine beq_eq_false_iff_ne.mpr fun isHunk => ?_
        have := inStep lines (c :: rest) [] rfl (by rw [isHunk]; rfl)
        rw [this] at swallows
        contradiction
      rw [List.foldl_cons, List.foldl_nil, Hunks.line_outside isClosed, notHunk, ← isClosed]
      rfl

/-- A line with an at sign that is swallowed begins no hunk. -/
theorem splitLinesOf_begun (areLines : AreLines lines) :
    (splitLinesOf lines).hunks.begun ≤ (lines.foldl Hunks.line initialHunks).begun ∧
      ∀ before line after, lines = before ++ line :: after → line.head? = some 0x40 →
        swallowsNext before = true →
        (splitLinesOf lines).hunks.begun < (lines.foldl Hunks.line initialHunks).begun := by
  induction lines using List.reverseRecOn with
  | nil => exact ⟨Nat.le_refl _, by simp⟩
  | append_singleton lines line inductionHypothesis =>
    obtain ⟨le, less⟩ := inductionHypothesis areLines.init.1
    have step : (splitLinesOf (lines ++ [line])).hunks.begun = (splitLinesOf lines).hunks.begun +
        if line.head? = some 0x40 ∧ swallowsNext lines = false then 1 else 0 := by
      rw [splitLinesOf_hunks areLines]
      cases swallowsNext lines with
      | true =>
        rw [if_neg (by simp)]
        exact Nat.add_right_cancel (Hunks.begun_echo (splitLinesOf lines).hunks line
          (splitLinesOf lines).hunks.isOpen)
      | false =>
        rw [Hunks.lineUnless, if_neg Bool.false_ne_true, Hunks.begun_line]
        simp
    rw [List.foldl_append, List.foldl_cons, List.foldl_nil, Hunks.begun_line, step]
    have fewer : (if line.head? = some 0x40 ∧ swallowsNext lines = false then 1 else 0) ≤
        if line.head? = some 0x40 then 1 else 0 := by
      split
      · next both => rw [if_pos both.1]
      · exact Nat.zero_le _
    refine ⟨Nat.add_le_add le fewer, ?_⟩
    intro before other after isLines isHunk swallows
    rcases List.eq_nil_or_concat' after with rfl | ⟨after, last, rfl⟩
    · obtain ⟨rfl, isOther⟩ := List.append_inj' isLines rfl
      obtain rfl : line = other := by simpa using isOther
      rw [if_pos isHunk, if_neg (by rw [swallows]; simp)]
      omega
    · rw [← List.cons_append, ← List.append_assoc] at isLines
      obtain ⟨rfl, -⟩ := List.append_inj' isLines rfl
      exact Nat.add_lt_add_of_lt_of_le (less before other after rfl isHunk swallows) fewer

/-- The splitter works line by line exactly when no line with an at sign comes directly behind an
odd number of empty lines. -/
theorem splitter_lineByLine_iff (input : List UInt8) :
    (initialSplitter.run input).hunks = lineByLine input ↔
      ∀ before line after, linesOf input = before ++ line :: after → line.head? = some 0x40 →
        Even (emptyAtEnd before) := by
  have areLines := linesOf_areLines input
  have isRun : initialSplitter.run input = splitLinesOf (linesOf input) := by
    rw [splitLinesOf, linesOf_flatten]
  have even : ∀ before, Even (emptyAtEnd before) ↔ swallowsNext before = false := by
    intro before
    rw [← Nat.not_odd_iff_even, ← swallowsNext_iff, Bool.not_eq_true]
  rw [isRun, lineByLine]
  constructor
  · intro same before line after isLines isHunk
    rw [even, ← Bool.not_eq_true]
    intro swallows
    have less := (splitLinesOf_begun areLines).2 before line after isLines isHunk swallows
    rw [same] at less
    exact Nat.lt_irrefl _ less
  · intro inStep
    refine splitLinesOf_eq areLines fun before line after isLines isHunk => ?_
    exact (even before).mp (inStep before line after isLines isHunk)

/-- Behind an empty line a hunk is not found. -/
theorem splitter_emptyLine :
    (initialSplitter.run [10, 0x40, 0x40, 10, 0x2B, 97, 10]).hunks ≠
      lineByLine [10, 0x40, 0x40, 10, 0x2B, 97, 10] := by decide

end Dwdiff
