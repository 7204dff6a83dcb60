/-
This file models the printing half of `doDiff.c`, up to the functions that
handle whole words. What is written goes through `addchar`, `writeString` and
`printLineNumbers` of `buffer.c`; the calls are recorded in order, since nothing
in `doDiff.c` looks at what became of them.

The variables that printing a character touches are kept apart, as the screen,
from the two files and their positions. Two variables are not in the source: the
record of the pieces that were taken from the temporary files, and that of the
steps the run has made.
-/

import Dwdiff.Frame
import Dwdiff.Trimming

namespace Dwdiff

/-- The calls that produce output. -/
inductive Emission where
  | addchar (c : UInt8) (common : Bool)
  | writeString (string : List UInt8)
  | printLineNumbers (oldLineNumber newLineNumber : Nat)
  | puts (string : String)
  deriving DecidableEq, Repr

inductive Mode where
  | add
  | del
  | common
  | oldCommon
  deriving DecidableEq, Repr

/-- `mode & COMMON`. -/
def Mode.isCommon : Mode → Bool
  | .add => false
  | .del => false
  | .common => true
  | .oldCommon => true

/-- `mode + COMMON`, for a mode that is not common. -/
def Mode.plusCommon : Mode → Mode
  | .add => .common
  | .del => .oldCommon
  | mode => mode

/-- The static variables that printing a character reads and writes. -/
structure Screen where
  oldLineNumber : Nat
  newLineNumber : Nat
  lastWasLinefeed : Bool
  lastWasCarriageReturn : Bool
  output : List Emission
  deriving DecidableEq, Repr

/-- One more call. -/
def Screen.emit (screen : Screen) (emission : Emission) : Screen :=
  { screen with output := screen.output ++ [emission] }

/-- A call that is only made under a condition. -/
def Screen.emitIf (screen : Screen) (condition : Bool) (emission : Emission) : Screen :=
  if condition then screen.emit emission else screen

def resetColor : List UInt8 := [0x1B, 0x5B, 0x30, 0x6D]

def eraseLine : List UInt8 := [0x1B, 0x5B, 0x4B]

/-- A part of a function that is only run under a condition. -/
def onlyIf {State : Type} (condition : Bool) (action : State → Except Failure State)
    (state : State) : Except Failure State :=
  if condition then action state else .ok state

/-! ### Characters -/

section Characters

variable (options : Options)

def addCharData (char : ReadChar) (common : Bool) (screen : Screen) : Except Failure Screen :=
  match char with
  | .single byte => .ok (screen.emit (.addchar byte common))
  | .cluster units => do
    let (bytes, _) ← filteredConvertAll units 0
    .ok { screen with output := screen.output ++ bytes.map fun byte => .addchar byte common }

variable (mode : Mode) (char : ReadChar) (screen : Screen)

/-- The marker or colour that starts text of a mode. -/
def startMarker : List UInt8 :=
  if mode = .add then options.addStart else options.delStart

def stopMarker : List UInt8 :=
  if mode = .add then options.addStop else options.delStop

def color : List UInt8 :=
  if mode = .add then options.addColor else options.delColor

def doPostLinefeed : Screen :=
  if screen.lastWasLinefeed then
    let changed := !mode.isCommon
    let screen := { screen with lastWasLinefeed := false }
    let screen :=
      if options.lineNumbers ≠ 0 then
        (screen.emitIf (options.colorMode && changed) (.writeString resetColor)).emit
          (.printLineNumbers screen.oldLineNumber screen.newLineNumber)
      else screen
    if options.needStartStop && changed then
      (screen.emitIf options.colorMode (.writeString (color options mode))).emitIf
        options.repeatMarkers (.writeString (startMarker options mode))
    else screen
  else screen

/-- What is written before a line break inside changed text. -/
def beforeLineBreak : Screen :=
  if options.needStartStop && !mode.isCommon &&
      (char.equals 13 || (!screen.lastWasCarriageReturn && char.equals 10)) then
    (screen.emitIf options.repeatMarkers (.writeString (stopMarker options mode))).emitIf
      options.colorMode (.writeString eraseLine)
  else screen

/-- What both kinds of characters leave behind when they were printed. -/
def rememberLineBreak : Screen :=
  { screen with
    lastWasLinefeed := char.equals 10 || screen.lastWasLinefeed
    lastWasCarriageReturn := char.equals 13 }

/-- The part of `handleWhitespaceChar` that prints. -/
def printWhitespaceChar : Except Failure Screen := do
  let screen := doPostLinefeed options mode screen
  -- Less mode also over-strikes whitespace.
  let screen :=
    if options.less && !char.equals 10 && !char.equals 13 && mode == .del then
      (screen.emit (.addchar 0x5F mode.isCommon)).emit (.addchar 8 mode.isCommon)
    else beforeLineBreak options mode char screen
  let screen ← addCharData char mode.isCommon screen
  .ok (rememberLineBreak char screen)

/-- The line numbers after whitespace. -/
def countWhitespaceLine : Screen :=
  if char.equals 10 then
    match mode with
    | .common | .add => { screen with newLineNumber := screen.newLineNumber + 1 }
    | .oldCommon | .del => { screen with oldLineNumber := screen.oldLineNumber + 1 }
  else screen

def handleWhitespaceChar (print : Bool) (mode : Mode) (char : ReadChar) (screen : Screen) :
    Except Failure Screen := do
  let screen ← onlyIf print (printWhitespaceChar options mode char) screen
  .ok (countWhitespaceLine mode char screen)

/-- What printer mode and less mode put in front of a character. -/
def overstrike : Except Failure Screen :=
  match mode with
  | .del => .ok ((screen.emit (.addchar 0x5F false)).emit (.addchar 8 false))
  | .add => do
    let screen ← addCharData char false screen
    .ok (screen.emit (.addchar 8 false))
  | _ => .ok screen

def addTokenChar : Except Failure Screen := do
  let screen ←
    onlyIf ((options.printer || options.less) && !char.equals 10 && !char.equals 13)
      (overstrike mode char) screen
  addCharData char mode.isCommon screen

/-- The part of the loop of `handleNextToken` that prints. -/
def printTokenChar : Except Failure Screen := do
  let screen := beforeLineBreak options mode char (doPostLinefeed options mode screen)
  let screen ← addTokenChar options mode char screen
  .ok (rememberLineBreak char screen)

/-- The line numbers after a character of a token. Common words are counted once, for both
files. -/
def countTokenLine : Screen :=
  if char.equals 10 then
    match mode with
    | .common => { screen with
        oldLineNumber := screen.oldLineNumber + 1, newLineNumber := screen.newLineNumber + 1 }
    | .add => { screen with newLineNumber := screen.newLineNumber + 1 }
    | .del => { screen with oldLineNumber := screen.oldLineNumber + 1 }
    | .oldCommon => screen
  else screen

/-- The body of the loop of `handleNextToken`. -/
def handleTokenChar (print : Bool) (mode : Mode) (char : ReadChar) (screen : Screen) :
    Except Failure Screen := do
  let screen ← onlyIf print (printTokenChar options mode char) screen
  .ok (countTokenLine mode char screen)

/-- What `handleSynchronizedNextWhitespace` prints of a character. -/
def printCommonChar : Except Failure Screen := do
  let screen ← addCharData char true (doPostLinefeed options .common screen)
  .ok (rememberLineBreak char screen)

end Characters

/-! ### Files -/

/-- The two inputs. -/
inductive Side where
  | old
  | new
  deriving DecidableEq, Repr

def Side.other : Side → Side
  | .old => .new
  | .new => .old

/-- The fields of an `InputFile` that are used once the file was read. -/
structure InputFile (Source : Type := Bytes) where
  diffTokens : List Nat
  tokens : Stream Source
  whitespace : Stream Source
  lastPrinted : Int
  whitespaceBuffer : List UInt8
  whitespaceBufferUsed : Bool
  deriving DecidableEq, Repr

/-- `Statistics`, as far as `doDiff.c` counts. -/
structure Statistics where
  added : Int
  deleted : Int
  oldChanged : Int
  newChanged : Int
  deriving DecidableEq, Repr

/-- A piece that was taken from one of the files: the next one at the time, if the file had
one. -/
inductive Event where
  | run (side : Side) (piece : Option (List ReadChar))
  | token (side : Side) (mode : Mode) (piece : Option (List ReadChar))
  deriving DecidableEq, Repr

/-- A step of a run: a common word was printed, before the last change or after it, or the words
of a change. -/
inductive StepKind where
  | common
  | ending
  | difference (command : Command) (change : Diff.Change)
  deriving DecidableEq, Repr

/-- A step, with the counters behind it. -/
structure Step where
  kind : StepKind
  oldLineNumber : Nat
  newLineNumber : Nat
  oldPrinted : Int
  newPrinted : Int
  deriving DecidableEq, Repr

/-- The two input files and the globals of `doDiff.c`, with the records of the pieces taken and of
the steps made. -/
structure Printing (Source : Type := Bytes) where
  oldFile : InputFile Source
  newFile : InputFile Source
  screen : Screen
  lastWasDelete : Bool
  differences : Nat
  statistics : Statistics
  baseHashMax : Nat
  hashtable : Hashtable
  events : List Event
  steps : List Step

section Files

variable {Source : Type} (state : Printing Source)

/-- One of the two files. -/
def Printing.file : Side → InputFile Source
  | .old => state.oldFile
  | .new => state.newFile

def Printing.setFile (side : Side) (file : InputFile Source) : Printing Source :=
  match side with
  | .old => { state with oldFile := file }
  | .new => { state with newFile := file }

def Printing.record (event : Event) : Printing Source :=
  { state with events := state.events ++ [event] }

def Printing.step (kind : StepKind) : Printing Source :=
  { state with steps := state.steps ++ [⟨kind, state.screen.oldLineNumber,
    state.screen.newLineNumber, state.oldFile.lastPrinted, state.newFile.lastPrinted⟩] }

end Files

section Pieces

variable {Source : Type} [StreamVtable Source] (options : Options) (locale : Locale)

/-- The piece that comes next in a stream. -/
def peekPiece (stream : Stream Source) : Option (List ReadChar) :=
  match readPiece options locale stream.rounds stream with
  | .ok (chars, .terminator, _) => some chars
  | _ => none

/-- A loop over a string in memory, up to its end. -/
def forString {State : Type} (body : ReadChar → State → Except Failure State) :
    Nat → Stream → State → Except Failure State
  | 0, _, _ => .error .diverges
  | fuel + 1, stream, state => do
    let (char, stream) ← readNextChar options locale stream
    match char with
    | none => .ok state
    | some char => do
      let state ← body char state
      forString body fuel stream state

def handleNextWhitespace (side : Side) (print : Bool) (mode : Mode) (state : Printing) :
    Except Failure Printing :=
  let file := state.file side
  if file.whitespaceBufferUsed then do
    let stream := newStringStream file.whitespaceBuffer
    let screen ← forString options locale (handleWhitespaceChar options print mode) stream.rounds
      stream state.screen
    .ok ({ state with screen := screen }.setFile side
      { file with whitespaceBuffer := [], whitespaceBufferUsed := false })
  else do
    let (_, stream, screen) ← forPiece options locale
      (always (handleWhitespaceChar options print mode)) file.whitespace.rounds file.whitespace
      state.screen
    .ok (({ state with screen := screen }.setFile side { file with whitespace := stream }).record
      (.run side (peekPiece options locale file.whitespace)))

/-- One more line of one of the files. -/
def countLine (side : Side) (screen : Screen) : Screen :=
  match side with
  | .old => { screen with oldLineNumber := screen.oldLineNumber + 1 }
  | .new => { screen with newLineNumber := screen.newLineNumber + 1 }

/-- The loop over the B file in `handleSynchronizedNextWhitespace`, up to the next newline. -/
def toNextLine (side : Side) (char : ReadChar) (screen : Screen) : Except Failure (Bool × Screen) :=
  if char.equals 10 then .ok (true, countLine side screen) else .ok (false, screen)

/-- The loop over what is left of the B file. -/
def countLines (side : Side) (char : ReadChar) (screen : Screen) : Except Failure Screen :=
  .ok (if char.equals 10 then countLine side screen else screen)

/-- A line of the A file, while its whitespace is read: the B file is followed to its next
line as long as it is valid, which it is until its piece has ended. -/
def followLine (sideA sideB : Side) (state : Screen × Stream Source × Bool) :
    Except Failure (Screen × Stream Source × Bool) :=
  match state with
  | (screen, whitespaceB, false) => .ok (countLine sideA screen, whitespaceB, false)
  | (screen, whitespaceB, true) => do
    let (pieceEnd, whitespaceB, screen) ← forPiece options locale (toNextLine sideB)
      whitespaceB.rounds whitespaceB (countLine sideA screen)
    .ok (screen, whitespaceB, pieceEnd == .stopped)

/-- The body of the loop over the A file in `handleSynchronizedNextWhitespace`. -/
def synchronize (sideA sideB : Side) (char : ReadChar) (state : Screen × Stream Source × Bool) :
    Except Failure (Screen × Stream Source × Bool) := do
  let screen ← onlyIf options.printCommon (printCommonChar options char) state.1
  onlyIf (char.equals 10) (followLine options locale sideA sideB) (screen, state.2)

/-- What is left of the whitespace of the B file. -/
def skipRest (sideB : Side) (state : Screen × Stream Source × Bool) :
    Except Failure (Screen × Stream Source) :=
  match state with
  | (screen, whitespaceB, false) => .ok (screen, whitespaceB)
  | (screen, whitespaceB, true) => do
    let (_, whitespaceB, screen) ← forPiece options locale (always (countLines sideB))
      whitespaceB.rounds whitespaceB screen
    .ok (screen, whitespaceB)

/-- The stream that the next whitespace of a file is read from. -/
def InputFile.whitespaceStream (file : InputFile Source) : Stream Source :=
  if file.whitespaceBufferUsed then StreamVtable.newStringStream file.whitespaceBuffer
  else file.whitespace

/-- A file after its next whitespace was read up to `stream`. -/
def Printing.afterWhitespace (state : Printing Source) (side : Side) (stream : Stream Source) :
    Printing Source :=
  let file := state.file side
  if file.whitespaceBufferUsed then state
  else (state.setFile side { file with whitespace := stream }).record
    (.run side (peekPiece options locale file.whitespace))

def handleSynchronizedNextWhitespace (printNew : Bool) (state : Printing Source) :
    Except Failure (Printing Source) := do
  let sideA := if printNew then Side.new else Side.old
  let sideB := sideA.other
  let whitespaceA := (state.file sideA).whitespaceStream
  let whitespaceB := (state.file sideB).whitespaceStream
  let (_, whitespaceA, synchronized) ← forPiece options locale
    (always (synchronize options locale sideA sideB)) whitespaceA.rounds whitespaceA
    (state.screen, whitespaceB, true)
  let (screen, whitespaceB) ← skipRest options locale sideB synchronized
  let state := { state with screen := screen }
  .ok ((state.afterWhitespace options locale sideA whitespaceA).afterWhitespace options locale
    sideB whitespaceB)

/-- The body of the loop of `handleNextToken`, with `empty`. -/
def handleTokenRound (print : Bool) (mode : Mode) (char : ReadChar) (loop : Bool × Screen) :
    Except Failure (Bool × Screen) := do
  let screen ← handleTokenChar options print mode char loop.2
  .ok (false, screen)

/-- The marker for a paragraph. It is passed to `addchar` with the mode as its `common`. -/
def printParaDelim (mode : Mode) (screen : Screen) : Except Failure Screen :=
  let marker := newStringStream options.paraDelimMarker
  forString options locale
    (fun char screen => addCharData char (mode != .add) (doPostLinefeed options mode screen))
    marker.rounds marker screen

def handleNextToken (side : Side) (print : Bool) (mode : Mode) (state : Printing Source) :
    Except Failure (Printing Source) := do
  let file := state.file side
  let (pieceEnd, stream, empty, screen) ← forPiece options locale
    (always (handleTokenRound options print mode)) file.tokens.rounds file.tokens
    (true, state.screen)
  let screen ← onlyIf
    (pieceEnd == .terminator && options.paraDelim && print && empty && mode != .common)
    (printParaDelim options locale mode) screen
  .ok (({ state with screen := screen }.setFile side { file with tokens := stream }).record
    (.token side mode (peekPiece options locale file.tokens)))

end Pieces

end Dwdiff
