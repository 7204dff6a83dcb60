/-
This file models `prepareAndExecuteDiff` of `dwdiff.c`: the two inputs are read
into temporary files, the numbers of their words are fixed, and `doDiff` compares
them. The globals that a later call finds as they were left, when the input is
split into hunks, are part of the state. The end of `main` prints the statistics.
-/

import Dwdiff.DoDiff
import Dwdiff.Tokenizer

namespace Dwdiff

/-- The static variables at the start of the program. -/
def initialScreen : Screen where
  oldLineNumber := 1
  newLineNumber := 1
  lastWasLinefeed := true
  lastWasCarriageReturn := false
  output := []

/-- An `InputFile` before anything was read. -/
def emptyFile : InputFile where
  diffTokens := []
  tokens := newFileStream []
  whitespace := newFileStream []
  lastPrinted := 0
  whitespaceBuffer := []
  whitespaceBufferUsed := false

/-- The globals at the start of the program. -/
def initialPrinting : Printing where
  oldFile := emptyFile
  newFile := emptyFile
  screen := initialScreen
  lastWasDelete := false
  differences := 0
  statistics := ⟨0, 0, 0, 0⟩
  baseHashMax := 0
  hashtable := Hashtable.empty
  events := []
  steps := []

/-- An `InputFile` whose temporary files were written and rewound. -/
def InputFile.filled (file : InputFile) (reading : Reading) : InputFile :=
  { file with
    diffTokens := reading.diffTokens
    tokens := newFileStream reading.tokens
    whitespace := newFileStream reading.whitespace }

/-- The globals when `doDiff` is called. -/
def Printing.filled (state : Printing) (oldReading newReading : Reading) : Printing :=
  let (hashMax, table) := getHashMax newReading.hashtable
  { state with
    oldFile := state.oldFile.filled oldReading
    newFile := state.newFile.filled newReading
    baseHashMax := hashMax
    hashtable := table }

/-- What a run leaves: the totals of the statistics, and the globals. -/
structure Executed where
  oldTotal : Nat
  newTotal : Nat
  charData : CharData
  state : Printing

def prepareAndExecuteDiff (options : Options) (locale : Locale) (old new : List UInt8)
    (charData : CharData) (state : Printing) : Except Failure Executed := do
  let (oldTotal, oldReading) ← readFile options locale old charData state.hashtable
  let (newTotal, newReading) ← readFile options locale new oldReading.charData
    oldReading.hashtable
  let state ← doDiff options locale (state.filled oldReading newReading)
  .ok ⟨oldTotal, newTotal, newReading.charData, state⟩

/-! ### The statistics of `main` -/

/-- The value of an `int` expression. An overflow is undefined. -/
def asInt (value : Int) : Except Failure Int :=
  if -2147483648 ≤ value ∧ value ≤ 2147483647 then .ok value else .error .undefined

/-- A number of words, and the percentage printed behind it. -/
structure Share where
  count : Int
  percentage : Int
  deriving DecidableEq, Repr

def share (total count : Int) : Except Failure Share := do
  let product ← asInt (count * 100)
  let percentage ← asInt (product.tdiv total)
  .ok ⟨count, percentage⟩

/-- A line of the statistics. Nothing is said about a file without words. -/
inductive StatisticsLine where
  | noWords
  | words (total : Int) (common counted changed : Share)
  deriving DecidableEq, Repr

/-- The numbers of a line: the words that are not common are those that are only in this file and
those that were changed. -/
def statisticsLine (total counted changed : Int) : Except Failure StatisticsLine := do
  let rest ← asInt (total - counted)
  let common ← asInt (rest - changed)
  if total = 0 then .ok .noWords
  else do
    let common ← share total common
    let counted ← share total counted
    let changed ← share total changed
    .ok (.words total common counted changed)

def Share.text (share : Share) (kind : String) : String :=
  "  " ++ toString share.count ++ " " ++ toString share.percentage ++ "% " ++ kind

/-- The line as it is printed, with the name of the file and that of the words only in it. -/
def StatisticsLine.text (file kind : String) : StatisticsLine → String
  | .noWords => file ++ ": 0 words\n"
  | .words total common counted changed =>
    file ++ ": " ++ toString total ++ " words" ++ common.text "common" ++ counted.text kind ++
      changed.text "changed" ++ "\n"

def oldLine (statistics : Statistics) (oldTotal : Int) : Except Failure StatisticsLine :=
  statisticsLine oldTotal statistics.deleted statistics.oldChanged

def newLine (statistics : Statistics) (newTotal : Int) : Except Failure StatisticsLine :=
  statisticsLine newTotal statistics.added statistics.newChanged

/-- What `main` prints for the option `statistics`. -/
def printStatistics (statistics : Statistics) (oldTotal newTotal : Int) :
    Except Failure String := do
  let old ← oldLine statistics oldTotal
  let new ← newLine statistics newTotal
  .ok (old.text "old" "deleted" ++ new.text "new" "inserted")

end Dwdiff
