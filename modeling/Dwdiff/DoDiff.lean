/-
This file models `doDiffInternal` and what it calls: the printing of ranges of
words, the loading of whitespace ahead of a change, and the recursion into the
changes that were found with context. The engine is the model of `diff_2_files`,
and the trimming is that of `Trimming`.
-/

import Dwdiff.Printing

namespace Dwdiff

open Diff

section Words

variable (options : Options) (locale : Locale)

/-- `lastPrinted++`. -/
def Printing.advance (state : Printing) (side : Side) : Printing :=
  state.setFile side { state.file side with lastPrinted := (state.file side).lastPrinted + 1 }

/-- The body of the loop of `handleWord`. -/
def handleOneWord (side : Side) (print : Bool) (mode : Mode) (state : Printing) :
    Except Failure Printing := do
  let state ← handleNextWhitespace options locale side print mode state
  let state ← handleNextToken options locale side print mode state
  .ok (state.advance side)

def handleWord (side : Side) (print : Bool) (mode : Mode) (idx : Int) :
    Nat → Printing → Except Failure Printing
  | 0, state => if (state.file side).lastPrinted < idx then .error .diverges else .ok state
  | fuel + 1, state =>
    if (state.file side).lastPrinted < idx then do
      let state ← handleOneWord options locale side print mode state
      handleWord side print mode idx fuel state
    else .ok state

/-- What the loops of `printToCommonWord` and `printEnd` do with a word of each file. -/
def handleCommonWord {Source : Type} [StreamVtable Source] (print : Bool)
    (state : Printing Source) : Except Failure (Printing Source) := do
  let state ← handleSynchronizedNextWhitespace options locale (!state.lastWasDelete) state
  let state := { state with lastWasDelete := false }
  let state ← handleNextToken options locale .new print .common state
  handleNextToken options locale .old false .oldCommon state

/-- The body of the loop of `printToCommonWord`. -/
def printCommonWord (state : Printing) : Except Failure Printing := do
  let state ← handleCommonWord options locale options.printCommon state
  .ok (((state.advance .new).advance .old).step .common)

def printToCommonWord (idx : Int) : Nat → Printing → Except Failure Printing
  | 0, state => if state.newFile.lastPrinted < idx then .error .diverges else .ok state
  | fuel + 1, state =>
    if state.newFile.lastPrinted < idx then do
      let state ← printCommonWord options locale state
      printToCommonWord idx fuel state
    else .ok state

/-- A call that only changes the screen. -/
def Printing.onScreen (state : Printing) (change : Screen → Screen) : Printing :=
  { state with screen := change state.screen }

/-- The marker and the colour in front of a range of words. -/
def startWords (mode : Mode) (screen : Screen) : Screen :=
  if options.needStartStop then
    (screen.emitIf options.colorMode (.writeString (color options mode))).emit
      (.writeString (startMarker options mode))
  else screen

/-- The marker and the colour behind a range of words. -/
def stopWords (mode : Mode) (screen : Screen) : Screen :=
  if options.needStartStop then
    (screen.emit (.writeString (stopMarker options mode))).emitIf options.colorMode
      (.writeString resetColor)
  else screen

def printWords (start count : Int) (side : Side) (print : Bool) (mode : Mode) (state : Printing) :
    Except Failure Printing := do
  assert ((state.file side).lastPrinted == start) "file->lastPrinted == start"
  -- The whitespace before the first word is not changed text.
  let state ← handleNextWhitespace options locale side print mode.plusCommon state
  let state := state.onScreen fun screen =>
    if print then startWords options mode (doPostLinefeed options .common screen) else screen
  let state ← handleNextToken options locale side print mode state
  let state := state.advance side
  let state ← handleWord options locale side print mode (start + count) count.toNat state
  .ok (state.onScreen fun screen =>
    if print then stopWords options mode (doPostLinefeed options mode screen) else screen)

def printDeletedWords (change : Change) : Printing → Except Failure Printing :=
  printWords options locale change.line0 change.deleted .old options.printDeleted .del

def printAddedWords (change : Change) : Printing → Except Failure Printing :=
  printWords options locale change.line1 change.inserted .new options.printAdded .add

/-- The loop of `printEnd`. -/
def printEndLoop {Source : Type} [StreamVtable Source] :
    Nat → Printing Source → Except Failure (Printing Source)
  | 0, _ => .error .diverges
  | fuel + 1, state => do
    let ended ← StreamVtable.sfeof state.newFile.tokens
    if ended then .ok state
    else do
      let state ← handleCommonWord options locale true state
      printEndLoop fuel (state.step .ending)

theorem printEndLoop_succ (fuel : Nat) (state : Printing) :
    printEndLoop options locale (fuel + 1) state =
      if state.newFile.tokens.eof = .hit then .ok state
      else handleCommonWord options locale true state >>= fun state =>
        printEndLoop options locale fuel (state.step .ending) := by
  rw [printEndLoop, show StreamVtable.sfeof state.newFile.tokens =
    .ok (state.newFile.tokens.eof == .hit) from rfl, ok_bind]
  simp only [beq_iff_eq]

def printEnd (state : Printing) : Except Failure Printing :=
  if options.printCommon then
    printEndLoop options locale (state.newFile.tokens.rounds + 1) state
  else .ok state

/-- The body of the loop of `loadNextWhitespace`: the buffer, and whether a newline was found. -/
def loadChar (char : ReadChar) (loaded : List UInt8 × Bool) :
    Except Failure (List UInt8 × Bool) := do
  let newlineFound := char.equals 10 || loaded.2
  match char with
  | .single byte => .ok (loaded.1 ++ [byte], newlineFound)
  | .cluster units => do
    let (bytes, _) ← filteredConvertAll units 0
    .ok (loaded.1 ++ bytes, newlineFound)

def loadNextWhitespace (side : Side) (state : Printing) : Except Failure (Bool × Printing) := do
  let file := state.file side
  let (_, stream, buffer, newlineFound) ← forPiece options locale (always loadChar)
    file.whitespace.rounds file.whitespace ([], false)
  .ok (newlineFound, (state.setFile side { file with
    whitespace := stream, whitespaceBuffer := buffer, whitespaceBufferUsed := true }).record
      (.run side (peekPiece options locale file.whitespace)))

/-! ### The script -/

/-- The whitespace before a change: whether the added words are printed first. When both runs
have a line feed they are printed together, and the new words get a single space instead. -/
def prepareWhitespace (state : Printing) : Except Failure (Bool × Printing) := do
  let (oldNewline, state) ← loadNextWhitespace options locale .old state
  if oldNewline then do
    let (newNewline, state) ← loadNextWhitespace options locale .new state
    if newNewline then do
      let state ← handleSynchronizedNextWhitespace options locale (!state.lastWasDelete) state
      .ok (false, { state with
        newFile := { state.newFile with whitespaceBuffer := [0x20] }
        oldFile := { state.oldFile with whitespaceBuffer := [] } })
    else .ok (true, state)
  else .ok (false, state)

/-- The line that separates the changes when common text is not printed. -/
def markerLine : String := "======================================================================"

/-- The statistics after a command. -/
def countChange (command : Command) (change : Change) (statistics : Statistics) : Statistics :=
  match command with
  | .add => { statistics with added := statistics.added + change.inserted }
  | .del => { statistics with deleted := statistics.deleted + change.deleted }
  | .change => { statistics with
      newChanged := statistics.newChanged + change.inserted
      oldChanged := statistics.oldChanged + change.deleted }

/-- The whitespace is loaded for changes, unless the output is that of wdiff. -/
def loadWhitespace (command : Command) (state : Printing) : Except Failure (Bool × Printing) :=
  if command == .change && !options.wdiffOutput then prepareWhitespace options locale state
  else .ok (false, state)

/-- The words of a change. Only changes are printed in reverse, so the command is not looked at
then. -/
def printChangedWords (reverseDeleteAdd : Bool) (command : Command) (change : Change)
    (state : Printing) : Except Failure Printing :=
  if reverseDeleteAdd then do
    let state ← printAddedWords options locale change state
    printDeletedWords options locale change state
  else do
    let state ← onlyIf (command != .add) (printDeletedWords options locale change) state
    onlyIf (command != .del) (printAddedWords options locale change) state

/-- What is left to do when the words of a change are printed. -/
def finishChange (command : Command) (change : Change) (state : Printing) : Printing :=
  let state := state.onScreen fun screen =>
    if options.needMarkers then
      { screen.emit (.puts ("\n" ++ markerLine)) with lastWasLinefeed := true }
    else screen
  { state.step (.difference command change) with
    lastWasDelete := if command == .del && options.printDeleted && !options.wdiffOutput then true
      else state.lastWasDelete
    statistics := countChange command change state.statistics }

/-- What is printed for a change when the words before it are printed. -/
def printDifference (command : Command) (change : Change) (state : Printing) :
    Except Failure Printing := do
  let (reverseDeleteAdd, state) ← loadWhitespace options locale command state
  let state ← printChangedWords options locale reverseDeleteAdd command change state
  .ok (finishChange options command change state)

/-- The part of the loop of `doDiffInternal` that prints a change. -/
def printChange (command : Command) (change : Change) (state : Printing) :
    Except Failure Printing := do
  let state ← printToCommonWord options locale change.line1
    (change.line1 - state.newFile.lastPrinted).toNat state
  printDifference options locale command change state

/-- The four numbers of `baseRange`: start and length in the old and in the new file. -/
structure Range where
  start0 : Int
  count0 : Int
  start1 : Int
  count1 : Int
  deriving DecidableEq, Repr

/-- The change of a range, as a change of the whole files. -/
def inBase (baseRange : Option Range) (change : Change) : Change :=
  match baseRange with
  | some range =>
    { change with line0 := change.line0 + range.start0, line1 := change.line1 + range.start1 }
  | none => change

/-- One round of the loop of `doDiffInternal`; `recurse` is the recursive call. -/
def doChange (recurse : Range → Nat → Printing → Except Failure Printing)
    (baseRange : Option Range) (context : Nat) (change : Change) (state : Printing) :
    Except Failure Printing :=
  let change := inBase baseRange change
  let state := { state with differences := 1 }
  if options.matchContext ≠ 0 ∧ context ≠ 0 then do
    let (command, change) ← trimChange context change
    if command = .change ∧ !options.aggregateChanges then
      -- The new context must be a multiple of two.
      recurse ⟨change.line0, change.deleted, change.line1, change.inserted⟩ (context / 4 * 2) state
    else printChange options locale command change state
  else printChange options locale (commandOf change) change state

/-- The loop of `doDiffInternal`. -/
def doChanges (recurse : Range → Nat → Printing → Except Failure Printing)
    (baseRange : Option Range) (context : Nat) :
    List Change → Printing → Except Failure Printing
  | [], state => .ok state
  | change :: rest, state => do
    let state ← doChange options locale recurse baseRange context change state
    doChanges recurse baseRange context rest state

/-- The context that fits into the range, as a multiple of two. -/
def fitContext (range : Range) (context : Nat) : Nat :=
  min (min context range.count0.toNat) range.count1.toNat / 2 * 2

/-- The engine, on one of the pairs of arrays. -/
def runEngine (equivMax : Nat) (equivs0 equivs1 : List Nat) : Except Failure Comparing :=
  match diff2Files options.minimal options.speedLargeFiles equivMax equivs0 equivs1 with
  | some comparison => .ok comparison
  | none => .error .undefined

/-- The part of `doDiffInternal` in front of its loop: the context that is left and the result
of the engine. A context that does not fit is made smaller, and the recursive call with no
context left is the plain comparison. -/
def compareRange (baseHashMax : Nat) (oldTokens newTokens : List Nat) (baseRange : Option Range)
    (context : Nat) (table : Hashtable) : Except Failure (Nat × Comparing × Hashtable) :=
  let range := baseRange.getD ⟨0, oldTokens.length, 0, newTokens.length⟩
  let context := fitContext range context
  if context = 0 then do
    let comparison ← runEngine options baseHashMax (sliceOf oldTokens range.start0 range.count0)
      (sliceOf newTokens range.start1 range.count1)
    .ok (0, comparison, table)
  else do
    let (equivs0, table) ← initializeContextDiffTokens table oldTokens
      (baseRange.map fun range => (range.start0, range.count0)) context
    let (equivs1, table) ← initializeContextDiffTokens table newTokens
      (baseRange.map fun range => (range.start1, range.count1)) context
    let (hashMax, table) := getHashMax table
    let comparison ← runEngine options hashMax equivs0 equivs1
    .ok (context, comparison, table)

def doDiffInternal : Nat → Option Range → Nat → Printing → Except Failure Printing
  | 0, _, _, _ => .error .diverges
  | depth + 1, baseRange, context, state => do
    let (context, comparison, table) ← compareRange options state.baseHashMax
      state.oldFile.diffTokens state.newFile.diffTokens baseRange context state.hashtable
    let state := { state with hashtable := table }.onScreen fun screen =>
      screen.emitIf (options.needMarkers && baseRange.isNone) (.puts markerLine)
    doChanges options locale (fun range => doDiffInternal depth (some range)) baseRange context
      comparison.script state

/-- The positions and buffers that `doDiff` starts with. -/
def Printing.rewound (state : Printing) : Printing :=
  { state with
    oldFile := { state.oldFile with whitespaceBuffer := [], lastPrinted := 0 }
    newFile := { state.newFile with whitespaceBuffer := [], lastPrinted := 0 } }

def doDiff (state : Printing) : Except Failure Printing := do
  let state ← doDiffInternal options locale (options.matchContext + 1) none options.matchContext
    state.rewound
  printEnd options locale state

end Words

end Dwdiff
