/-
This file models the first half of `dwdiff.c`: `readFile` splits an input file
into a file of tokens and a file of whitespace runs, and numbers the tokens. The
functions that depend on the character set stand behind a dispatch table, with
one version for single bytes and one for UTF-8. In both temporary files a piece
ends with a NUL, and a 1 stands before a literal NUL or 1.

A temporary file that is being written is the list of its bytes.
-/

import Dwdiff.Cluster
import Dwdiff.Hashtable

namespace Dwdiff

/-- `CharData`, the last character that was read. -/
structure CharData where
  singleChar : UInt8
  original : List UInt16
  converted : List UInt16
  casefolded : List UInt16
  deriving DecidableEq, Repr

/-- The `InputFile` that is being filled, and the globals of `dwdiff.c`. -/
structure Reading where
  input : Stream
  tokens : List UInt8
  tokensHighSurrogate : Int
  whitespace : List UInt8
  whitespaceHighSurrogate : Int
  diffTokens : List Nat
  charData : CharData
  currentWord : List UInt8
  whitespaceBuffer : List UInt8
  tokenWritten : Bool
  hashtable : Hashtable

inductive MatchState where
  | none
  | whitespace
  | word
  deriving DecidableEq, Repr

/-- The categories of `classifyChar`. -/
inductive Category where
  | other
  | delimiter
  | whitespace
  deriving DecidableEq, Repr

/-- The entries of the `DispatchTable` that `readFile` uses. -/
structure DispatchTable where
  getNextChar : Reading → Except Failure (Bool × Reading)
  isWhitespace : CharData → Except Failure Bool
  isDelimiter : CharData → Except Failure Bool
  writeTokenChar : Reading → Except Failure Reading
  writeWhitespaceChar : Reading → Except Failure Reading
  writeWhitespaceDelimiter : Reading → Except Failure Reading

def writeEndOfToken (reading : Reading) : Except Failure Reading := do
  let (wordValue, hashtable) ← getValue reading.hashtable reading.currentWord
  .ok { reading with
    tokens := reading.tokens ++ [0]
    hashtable := hashtable
    tokenWritten := true
    diffTokens := reading.diffTokens ++ [wordValue]
    currentWord := [] }

/-! ### The single-byte table -/

/-- A byte as the single-byte functions store it: 1 is written before a 0 or a 1. -/
def escapeByte (byte : UInt8) : List UInt8 :=
  if byte = 0 ∨ byte = 1 then [1, byte] else [byte]

/-- `getNextCharSC`. At the end of the file `singleChar` keeps its value: nobody reads it. -/
def getNextCharSC (reading : Reading) : Except Failure (Bool × Reading) :=
  match reading.input.getChar with
  | (none, input) => .ok (false, { reading with input := input })
  | (some byte, input) =>
    .ok (true, { reading with
      input := input, charData := { reading.charData with singleChar := byte } })

variable (options : Options) (locale : Locale)

def isWhitespaceSC (charData : CharData) : Except Failure Bool :=
  .ok (testBit options.whitespace charData.singleChar)

def isDelimiterSC (charData : CharData) : Except Failure Bool :=
  .ok (testBit options.delimiters charData.singleChar)

def writeTokenCharSC (reading : Reading) : Except Failure Reading :=
  let char := reading.charData.singleChar
  let diffChar := if options.ignoreCase then locale.toLower char else char
  .ok { reading with
    currentWord := reading.currentWord ++ [diffChar]
    tokens := reading.tokens ++ escapeByte char }

def writeWhitespaceCharSC (reading : Reading) : Except Failure Reading :=
  .ok { reading with
    whitespaceBuffer := reading.whitespaceBuffer ++ escapeByte reading.charData.singleChar }

def writeWhitespaceDelimiterSC (reading : Reading) : Except Failure Reading :=
  .ok { reading with whitespace := reading.whitespace ++ [0] }

def dispatchSC : DispatchTable where
  getNextChar := getNextCharSC
  isWhitespace := isWhitespaceSC options
  isDelimiter := isDelimiterSC options
  writeTokenChar := writeTokenCharSC options locale
  writeWhitespaceChar := writeWhitespaceCharSC
  writeWhitespaceDelimiter := writeWhitespaceDelimiterSC

/-! ### The UTF-8 table -/

/-- `getNextCharUTF8`, with the decomposition of the cluster. -/
def getNextCharUTF8 (reading : Reading) : Except Failure (Bool × Reading) := do
  let (cluster, input) ← getCluster locale reading.input
  match cluster with
  | none => .ok (false, { reading with input := input })
  | some original =>
    .ok (true, { reading with
      input := input
      charData := { reading.charData with
        original := original, converted := locale.normalize original } })

/-- `isWhitespaceUTF8`. The list is sorted, so the binary search finds what the list has. -/
def isWhitespaceUTF8 (charData : CharData) : Except Failure Bool :=
  if options.whitespaceSet then .ok (options.whitespaceList.contains charData.converted)
  else utf16CharCondition locale.isUWhiteSpace charData.converted

def isDelimiterUTF8 (charData : CharData) : Except Failure Bool :=
  if options.delimiterList.contains charData.converted then .ok true
  else if options.punctuationMask ≠ 0 then
    utf16CharCondition (fun c => locale.generalCategoryMask c &&& options.punctuationMask != 0)
      charData.converted
  else .ok false

/-- Whether the cluster is a literal NUL or 1, as the writers see it. -/
def needsEscape (original : List UInt16) : Bool :=
  original.headD 0 = 0 ∨ original.headD 0 = 1

def writeTokenCharUTF8 (reading : Reading) :
    Except Failure Reading := do
  let charData := if options.ignoreCase then
      { reading.charData with casefolded := locale.foldCase reading.charData.converted }
    else reading.charData
  let writeBuffer := if options.ignoreCase then charData.casefolded else charData.converted
  let (word, _) ← filteredConvertAll writeBuffer 0
  let reading := { reading with
    charData := charData, currentWord := reading.currentWord ++ word }
  if needsEscape charData.original then
    .ok { reading with
      tokens := reading.tokens ++ [1, UInt8.ofNat (charData.original.headD 0).toNat] }
  else do
    let (bytes, highSurrogate) ← filteredConvertAll charData.original reading.tokensHighSurrogate
    .ok { reading with
      tokens := reading.tokens ++ bytes, tokensHighSurrogate := highSurrogate }

def writeWhitespaceCharUTF8 (reading : Reading) : Except Failure Reading := do
  let original := reading.charData.original
  if needsEscape original then
    .ok { reading with
      whitespaceBuffer :=
        reading.whitespaceBuffer ++ [1, UInt8.ofNat (original.headD 0).toNat] }
  else do
    let (bytes, _) ← filteredConvertAll original 0
    .ok { reading with whitespaceBuffer := reading.whitespaceBuffer ++ bytes }

/-- `writeWhitespaceDelimiterUTF8`, which calls `putuc`. -/
def writeWhitespaceDelimiterUTF8 (reading : Reading) : Except Failure Reading := do
  let (bytes, highSurrogate) ← filteredConvertToUTF8 0 reading.whitespaceHighSurrogate
  .ok { reading with
    whitespace := reading.whitespace ++ bytes, whitespaceHighSurrogate := highSurrogate }

def dispatchUTF8 : DispatchTable where
  getNextChar := getNextCharUTF8 locale
  isWhitespace := isWhitespaceUTF8 options locale
  isDelimiter := isDelimiterUTF8 options locale
  writeTokenChar := writeTokenCharUTF8 options locale
  writeWhitespaceChar := writeWhitespaceCharUTF8
  writeWhitespaceDelimiter := writeWhitespaceDelimiterUTF8

/-- `dispatch`, as `main` sets it. -/
def dispatch : DispatchTable :=
  if options.utf8Mode then dispatchUTF8 options locale else dispatchSC options locale

/-! ### Splitting a file -/

/-- The loop of `handleWhitespaceEnd` that looks for two newlines: the index of the first one,
if there is one, and whether there is a second. -/
def findNewlines (buffer : List UInt8) : Option Nat × Bool :=
  match buffer.findIdx? (· == 10) with
  | none => (none, false)
  | some first => (some first, (buffer.drop (first + 1)).contains 10)

def handleWhitespaceEnd (table : DispatchTable) (reading : Reading) : Except Failure Reading :=
  let buffer := reading.whitespaceBuffer
  -- A paragraph delimiter ends one run before the byte at `index` and starts another there.
  let split (index : Nat) : Except Failure Reading := do
    let reading ← table.writeWhitespaceDelimiter
      { reading with whitespace := reading.whitespace ++ buffer.take index }
    let reading ← table.writeWhitespaceDelimiter
      { reading with whitespace := reading.whitespace ++ buffer.drop index }
    let reading ← writeEndOfToken reading
    .ok { reading with whitespaceBuffer := [] }
  let whole : Except Failure Reading := do
    let reading ← table.writeWhitespaceDelimiter
      { reading with whitespace := reading.whitespace ++ buffer }
    .ok { reading with whitespaceBuffer := [] }
  if options.paraDelim then
    match findNewlines buffer with
    | (some firstNewline, second) =>
      if !reading.tokenWritten then split firstNewline
      else if second then split (firstNewline + 1)
      else whole
    | (none, _) => whole
  else whole

def classifyChar (table : DispatchTable) (charData : CharData) : Except Failure Category := do
  if ← table.isDelimiter charData then .ok .delimiter
  else if ← table.isWhitespace charData then .ok .whitespace
  else .ok .other

/-- The body of the loop of `readFile`: the state, the word count and the files after one
character. -/
def readStep (table : DispatchTable) (category : Category) :
    MatchState → Nat → Reading → Except Failure (MatchState × Nat × Reading)
  | .none, wordCount, reading =>
    match category with
    | .whitespace => do
      let reading ← table.writeWhitespaceChar reading
      .ok (.whitespace, wordCount, reading)
    | .delimiter => do
      let reading ← handleWhitespaceEnd options table reading
      let reading ← table.writeTokenChar reading
      let reading ← writeEndOfToken reading
      .ok (.whitespace, wordCount, reading)
    | .other => do
      let reading ← handleWhitespaceEnd options table reading
      let reading ← table.writeTokenChar reading
      .ok (.word, wordCount, reading)
  | .word, wordCount, reading =>
    match category with
    | .whitespace => do
      let reading ← writeEndOfToken reading
      let reading ← table.writeWhitespaceChar reading
      .ok (.whitespace, wordCount + 1, reading)
    | .delimiter => do
      let reading ← writeEndOfToken reading
      let reading ← table.writeTokenChar reading
      let reading ← writeEndOfToken reading
      let reading ← handleWhitespaceEnd options table reading
      .ok (.whitespace, wordCount + 2, reading)
    | .other => do
      let reading ← table.writeTokenChar reading
      .ok (.word, wordCount, reading)
  | .whitespace, wordCount, reading =>
    match category with
    | .whitespace => do
      let reading ← table.writeWhitespaceChar reading
      .ok (.whitespace, wordCount, reading)
    | .delimiter => do
      let reading ← table.writeTokenChar reading
      let reading ← writeEndOfToken reading
      let reading ← handleWhitespaceEnd options table reading
      .ok (.whitespace, wordCount + 1, reading)
    | .other => do
      let reading ← handleWhitespaceEnd options table reading
      let reading ← table.writeTokenChar reading
      .ok (.word, wordCount, reading)

/-- The loop of `readFile`. -/
def readLoop (options : Options) (table : DispatchTable) :
    Nat → MatchState → Nat → Reading → Except Failure (MatchState × Nat × Reading)
  | 0, _, _, _ => .error .diverges
  | fuel + 1, state, wordCount, reading => do
    let (more, reading) ← table.getNextChar reading
    if more then do
      let category ← classifyChar table reading.charData
      let (state, wordCount, reading) ← readStep options table category state wordCount reading
      readLoop options table fuel state wordCount reading
    else .ok (state, wordCount, reading)

/-- The state in which `readFile` enters its loop: the input is open, and the temporary files
are new. What the globals hold from the file read before is kept. -/
def startReading (input : List UInt8) (charData : CharData) (hashtable : Hashtable) : Reading where
  input := newFileStream input
  tokens := []
  tokensHighSurrogate := 0
  whitespace := []
  whitespaceHighSurrogate := 0
  diffTokens := []
  charData := charData
  currentWord := []
  whitespaceBuffer := []
  tokenWritten := false
  hashtable := hashtable

/-- `readFile`: the number of words it returns, and the files it has written. -/
def readFile (input : List UInt8) (charData : CharData) (hashtable : Hashtable) :
    Except Failure (Nat × Reading) := do
  let table := dispatch options locale
  let (state, wordCount, reading) ← readLoop options table (input.length + 2) .none 0
    (startReading input charData hashtable)
  let reading ← handleWhitespaceEnd options table reading
  match state with
  | .word => do
    let reading ← writeEndOfToken reading
    .ok (wordCount + 1, reading)
  | _ => .ok (wordCount, reading)

end Dwdiff
