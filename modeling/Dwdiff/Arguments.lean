/-
This file models the loop between `OPTIONS` and `END_OPTIONS` of `optionMacros.h`
as `preParseArgs` and `parseArgs` expand it. Short options that share an argument
are taken one at a time: the argument is copied, and the copy is rewritten so that
it starts with the next letter.

Pointers are kept as such, because the copy is what keeps the argument vector from
being overwritten, and because it is freed while some bodies have stored a pointer
into it. The bodies of the options are not part of the loop: what is kept of them is
that they ran, with which argument, whether they ended the program, what they wrote
over their argument, and whether they stored the pointer to it. The loop is then
related to a reader of the list of arguments that has no pointers.
-/

import Dwdiff.Library.Outcome
import Dwdiff.Stream

namespace Dwdiff

open Outcome

variable {check : OptionCheck} {state : OptionState}

/-! ### Options -/

/-- Whether an option takes an argument. -/
inductive ArgReq where
  | noArg
  | optionalArg
  | requiredArg
  deriving DecidableEq, Repr

inductive ArgType where
  | short
  | long
  deriving DecidableEq, Repr

/-- One of the tests that stand between `OPTIONS` and `NO_OPTION`. -/
structure OptionCheck where
  shortName : Option UInt8
  longName : Option String
  argReq : ArgReq
  deriving DecidableEq, Repr

/-- `OPTION`. -/
def option (shortName : Char) (longName : String) (argReq : ArgReq) : OptionCheck :=
  ⟨some shortName.toNat.toUInt8, some longName, argReq⟩

/-- `SHORT_OPTION`. -/
def shortOption (shortName : UInt8) (argReq : ArgReq) : OptionCheck :=
  ⟨some shortName, none, argReq⟩

/-- `LONG_OPTION`. -/
def longOption (longName : String) (argReq : ArgReq) : OptionCheck :=
  ⟨none, some longName, argReq⟩

/-- `SINGLE_DASH`. -/
def singleDash : OptionCheck := shortOption 0 .noArg

/-- `DOUBLE_DASH`. -/
def doubleDash : OptionCheck := longOption "" .noArg

/-- `BOOLEAN_LONG_OPTION`. -/
def booleanLongOption (longName : String) : OptionCheck := longOption longName .noArg

/-- The options of `parseArgs`, which are also those of `option_stripped.inc`. -/
def optionChecks : List OptionCheck := [
  option 'd' "delimiters" .requiredArg,
  option 'P' "punctuation" .noArg,
  option 'W' "white-space" .requiredArg,
  option 'h' "help" .noArg,
  option 'v' "version" .noArg,
  option '1' "no-deleted" .noArg,
  option '2' "no-inserted" .noArg,
  option '3' "no-common" .noArg,
  option 'i' "ignore-case" .noArg,
  option 'I' "ignore-formatting" .noArg,
  option 's' "statistics" .noArg,
  option 'a' "autopager" .noArg,
  option 'p' "printer" .noArg,
  option 'l' "less-mode" .noArg,
  longOption "less" .noArg,
  option 't' "terminal" .noArg,
  option 'w' "start-delete" .requiredArg,
  option 'x' "stop-delete" .requiredArg,
  option 'y' "start-insert" .requiredArg,
  option 'z' "stop-insert" .requiredArg,
  option 'n' "avoid-wraps" .noArg,
  singleDash,
  doubleDash,
  option 'c' "color" .optionalArg,
  option 'L' "line-numbers" .optionalArg,
  option 'C' "context" .requiredArg,
  option 'm' "match-context" .requiredArg,
  booleanLongOption "aggregate-changes",
  option 'S' "paragraph-separator" .optionalArg,
  booleanLongOption "wdiff-output",
  longOption "dwfilter" .requiredArg,
  option 'r' "reverse" .noArg,
  option 'R' "repeat-markers" .noArg,
  option 'u' "diff-input" .noArg,
  option 'A' "algorithm" .requiredArg,
  longOption "profile" .requiredArg,
  longOption "no-profile" .noArg]

/-- What the loop does for an argument: run the body of an option, or the statements after
`NO_OPTION`. -/
inductive Action where
  | option (check : OptionCheck) (optArg : Option (List UInt8))
  | noOption (optcurrent : List UInt8)
  deriving DecidableEq, Repr

/-- How a run can end before the loop does: by `fatal`, or because a body calls `exit`. -/
inductive Ending where
  | failed (failure : Failure)
  | exited
  deriving DecidableEq, Repr

/-- The actions of a run that ended early, and how it ended. -/
abbrev Stop := List Action × Ending

/-- The two functions that expand the loop. When `parseArgs` is called, `option.dwfilterMode` was
set by `preParseArgs`. -/
inductive ParseFunction where
  | preParseArgs
  | parseArgs (dwfilterMode : Bool)
  deriving DecidableEq, Repr

/-- What is known of the bodies, each of them told by the actions up to its own: whether it ends
the program, and what it leaves of the string that `optArg` points to. -/
structure Bodies where
  ends : List Action → Option Ending
  writes : List Action → List UInt8 → List UInt8

/-- The bodies write nothing, as those of `preParseArgs`. -/
def Bodies.Quiet (body : Bodies) : Prop := ∀ actions text, body.writes actions text = text

/-- Bodies that go on and write nothing. -/
def Bodies.none : Bodies := ⟨fun _ => Option.none, fun _ text => text⟩

/-- The bodies that store `optArg` in `option`. -/
def keepsArgument (function : ParseFunction) (check : OptionCheck) : Bool :=
  check == longOption "profile" .requiredArg ||
    match function with
    | .preParseArgs => false
    | .parseArgs dwfilterMode =>
      check == option 'w' "start-delete" .requiredArg ||
      check == option 'x' "stop-delete" .requiredArg ||
      check == option 'y' "start-insert" .requiredArg ||
      check == option 'z' "stop-insert" .requiredArg ||
      (check == option 'S' "paragraph-separator" .optionalArg && !dwfilterMode)

/-! ### Strings -/

/-- Where a string is stored. -/
inductive Block where
  | argv (index : Nat)
  | copy
  deriving DecidableEq, Repr

/-- A pointer into a string. -/
structure Pointer where
  block : Block
  offset : Nat
  deriving DecidableEq, Repr

/-- The pointer that is some characters further. -/
def Pointer.plus (pointer : Pointer) (count : Nat) : Pointer :=
  { pointer with offset := pointer.offset + count }

/-- The variables of a parse function, the actions it has taken, and the pointers that its bodies
have stored. `optptr` is the copy that `OPTION_STRDUP` made. -/
structure OptionState where
  argv : List (List UInt8)
  optargind : Nat
  optnomore : Bool
  optcontrol : Nat
  optcurrent : Pointer
  optptr : Option (List UInt8)
  optArg : Option Pointer
  optlength : Nat
  opttype : ArgType
  actions : List Action
  kept : List Pointer
  deriving DecidableEq, Repr

namespace OptionState

variable (state : OptionState)

/-- The string a pointer points into, without its terminator. -/
def block : Block → Option (List UInt8)
  | .argv index => state.argv[index]?
  | .copy => state.optptr

/-- The string that starts at a pointer. -/
def text (state : OptionState) (pointer : Pointer) : Except Failure (List UInt8) :=
  match state.block pointer.block with
  | none => .error .undefined
  | some text =>
    if pointer.offset ≤ text.length then .ok (text.drop pointer.offset) else .error .undefined

/-- `pointer[index]`. The terminator is the last character that can be read. -/
def char (pointer : Pointer) (index : Nat) : Except Failure UInt8 := do
  let text ← state.text pointer
  if index ≤ text.length then .ok (text.getD index 0) else .error .undefined

/-- `pointer[0] = c`. -/
def store (pointer : Pointer) (c : UInt8) : Except Failure OptionState := do
  let text ← state.text pointer
  if text.length = 0 then .error .undefined
  else
    match pointer.block with
    | .argv index =>
      .ok { state with argv := state.argv.modify index fun text => text.set pointer.offset c }
    | .copy => .ok { state with optptr := state.optptr.map fun text => text.set pointer.offset c }

/-- What a body writes from a pointer on. -/
def overwrite (pointer : Pointer) (change : List UInt8 → List UInt8) : OptionState :=
  let write := fun text => text.take pointer.offset ++ change (text.drop pointer.offset)
  match pointer.block with
  | .argv index => { state with argv := state.argv.modify index write }
  | .copy => { state with optptr := state.optptr.map write }

theorem overwrite_optcontrol (pointer : Pointer) (change : List UInt8 → List UInt8) :
    (state.overwrite pointer change).optcontrol = state.optcontrol := by
  unfold overwrite
  cases pointer.block <;> rfl

/-- The run ends here. -/
def stop {Value : Type} (ended : Ending) : Except Stop Value :=
  .error (state.actions, ended)

/-- A step that can fail. -/
def attempt {Value : Type} (step : Except Failure Value) : Except Stop Value :=
  match step with
  | .ok value => .ok value
  | .error failure => state.stop (.failed failure)

@[simp] theorem attempt_bind {Value Result : Type} (value : Value)
    (next : Value → Except Stop Result) : (state.attempt (.ok value) >>= next) = next value := rfl

end OptionState

/-- A message that names an option. -/
def optionMessage (name : List UInt8) (message : String) : Failure :=
  .fatal ("Option " ++ String.ofList (name.map fun c => Char.ofNat c.toNat) ++ message)

/-- `fatal` with the current option, as `OPTFMT` and `OPTPRARG` print it. -/
def fatalOption {Value : Type} (state : OptionState) (message : String) : Except Stop Value := do
  let text ← state.attempt (state.text state.optcurrent)
  state.stop (.failed (optionMessage (text.take state.optlength) message))

/-! ### The loop -/

section Macros

variable (function : ParseFunction) (body : Bodies)

/-- A body runs, and may end the program. -/
def perform (action : Action) (state : OptionState) : Except Stop OptionState :=
  let state := { state with actions := state.actions ++ [action] }
  match body.ends state.actions with
  | none => .ok state
  | some ended => state.stop ended

/-- `CHECK_ARG`. -/
def checkArg (argReq : ArgReq) (state : OptionState) : Except Stop OptionState :=
  match argReq with
  | .noArg =>
    if state.optArg ≠ none then
      if state.opttype = .short then
        .ok { state with optcontrol := state.optcontrol + 1, optArg := none }
      else fatalOption state " does not take an argument\n"
    else .ok state
  | .requiredArg =>
    if state.optArg = none ∧ state.optargind + 1 ≥ state.argv.length then
      fatalOption state " requires an argument\n"
    else if state.optArg = none then
      .ok { state with
        optargind := state.optargind + 1
        optArg := some ⟨.argv (state.optargind + 1), 0⟩ }
    else .ok state
  | .optionalArg => .ok state

/-- Whether an option has the letter as its short name. -/
def OptionCheck.isShort (check : OptionCheck) (letter : UInt8) : Bool :=
  check.shortName == some letter

/-- Whether an option has the first `optlength` characters as its long name, after two dashes. -/
def OptionCheck.isLong (check : OptionCheck) (optlength : Nat) (optcurrent : List UInt8) : Bool :=
  match check.longName with
  | none => false
  | some longName =>
    longName.toUTF8.toList.length == optlength - 2 &&
      (optcurrent.drop 2).take (optlength - 2) == longName.toUTF8.toList

/-- The first test that applies. -/
def matching (state : OptionState) : Except Failure (Option OptionCheck) :=
  match state.opttype with
  | .short => do
    let letter ← state.char state.optcurrent 1
    .ok (optionChecks.find? fun check => check.isShort letter)
  | .long => do
    let text ← state.text state.optcurrent
    .ok (optionChecks.find? fun check => check.isLong state.optlength text)

/-- The argument that a body sees. -/
def argumentOf (state : OptionState) : Except Failure (Option (List UInt8)) :=
  match state.optArg with
  | none => .ok none
  | some pointer => do
    let text ← state.text pointer
    .ok (some text)

/-- What a body does with its argument. -/
def useArgument (check : OptionCheck) (state : OptionState) : OptionState :=
  match state.optArg with
  | none => state
  | some pointer =>
    { state.overwrite pointer (body.writes state.actions) with
      kept := state.kept ++ if keepsArgument function check then [pointer] else [] }

theorem useArgument_none (none : state.optArg = none) :
    useArgument function body check state = state := by
  rw [useArgument, none]

theorem useArgument_some {pointer : Pointer} (given : state.optArg = some pointer) :
    useArgument function body check state =
      { state.overwrite pointer (body.writes state.actions) with
        kept := state.kept ++ if keepsArgument function check then [pointer] else [] } := by
  rw [useArgument, given]

/-- The body of an option. `NO_MORE_OPTIONS` is that of `DOUBLE_DASH`. -/
def runOption (check : OptionCheck) (state : OptionState) : Except Stop OptionState := do
  let optArg ← state.attempt (argumentOf state)
  let state ← perform body (.option check optArg)
    { state with optnomore := state.optnomore || check == doubleDash }
  .ok (useArgument function body check state)

theorem runOption_none (missing : state.optArg = none) :
    runOption function body check state = perform body (.option check none)
      { state with optnomore := state.optnomore || check == doubleDash } := by
  have finds : argumentOf state = .ok none := by rw [argumentOf, missing]
  rw [runOption, finds, OptionState.attempt_bind, perform]
  dsimp only
  cases body.ends (state.actions ++ [.option check none]) with
  | none => exact congrArg Except.ok (useArgument_none function body missing)
  | some ended => rfl

/-- `optptr = optcurrent = OPTION_STRDUP(optcurrent)`, for the first of several letters. -/
def copyOption (state : OptionState) : Except Failure OptionState :=
  if state.optcontrol = 1 then do
    let text ← state.text state.optcurrent
    .ok { state with optptr := some text, optcurrent := ⟨.copy, 0⟩ }
  else .ok state

/-- The statements behind `check_next` for a letter that is followed by another one. -/
def shiftOption (state : OptionState) : Except Failure OptionState := do
  let state ← copyOption state
  let state := { state with optcontrol := 2, optcurrent := state.optcurrent.plus 1 }
  let state ← state.store state.optcurrent 0x2D
  let following ← state.char state.optcurrent 2
  .ok { state with
    optArg := if following ≠ 0 then some (state.optcurrent.plus 2) else none }

/-- `check_next`, where `again` is `goto next_opt`. -/
def checkNext (again : OptionState → Except Stop OptionState) (state : OptionState) :
    Except Stop OptionState :=
  if state.optcontrol = 1 ∨ state.optcontrol = 3 then do
    let state ← state.attempt (shiftOption state)
    again state
  else if state.optcontrol = 2 then .ok { state with optptr := none }
  else .ok state

/-- The statements from `next_opt` on. Only `parseArgs` has one behind its last option. -/
def nextOpt : (fuel : Nat) → OptionState → Except Stop OptionState
  | 0, state => state.stop (.failed .diverges)
  | fuel + 1, state => do
    let found ← state.attempt (matching state)
    match found with
    | none =>
      match function with
      | .preParseArgs => .ok state
      | .parseArgs _ => fatalOption state " does not exist\n"
    | some check =>
      let state ← checkArg check.argReq state
      let state ← runOption function body check state
      checkNext (nextOpt fuel) state

theorem nextOpt_some {fuel : Nat} (tests : matching state = .ok (some check)) :
    nextOpt function body (fuel + 1) state = (do
      let state ← checkArg check.argReq state
      let state ← runOption function body check state
      checkNext (nextOpt function body fuel) state) := by
  conv_lhs => unfold nextOpt
  rw [tests, OptionState.attempt_bind]

/-- `INT_MAX`, the bound on the length that is printed. -/
def maximalLength : Nat := 2147483647

/-- The statements before `next_opt`. -/
def startOption (state : OptionState) : Except Failure OptionState := do
  let second ← state.char state.optcurrent 1
  let state ←
    if second = 0x2D then do
      let text ← state.text state.optcurrent
      let length := text.findIdx (· == 0x3D)
      if length = text.length then
        .ok { state with optlength := length, optArg := none, opttype := .long }
      else
        .ok { state with
          optlength := length
          optArg := some (state.optcurrent.plus (length + 1))
          opttype := .long }
    else do
      let attached ←
        if second ≠ 0 then do
          let third ← state.char state.optcurrent 2
          .ok (third != 0)
        else .ok false
      .ok { state with
        optlength := 2
        optArg := if attached then some (state.optcurrent.plus 2) else none
        opttype := .short }
  .ok { state with optlength := min state.optlength maximalLength }

/-- The body of the loop. -/
def parseElement (state : OptionState) : Except Stop OptionState := do
  let state := { state with optcontrol := 0, optcurrent := ⟨.argv state.optargind, 0⟩ }
  let text ← state.attempt (state.text state.optcurrent)
  let first ← state.attempt (state.char state.optcurrent 0)
  if first = 0x2D && !state.optnomore then do
    let state ← state.attempt (startOption state)
    nextOpt function body (text.length + 1) state
  else perform body (.noOption text) state

/-- One round of the loop, with the increment of `optargind`. -/
def parseArgument (state : OptionState) : Except Stop OptionState := do
  let state ← parseElement function body state
  .ok { state with optargind := state.optargind + 1 }

/-- `for (optargind = 1; optargind < argc; optargind++)`. -/
def optionLoop : (fuel : Nat) → OptionState → Except Stop OptionState
  | 0, state => state.stop (.failed .diverges)
  | fuel + 1, state =>
    if state.optargind < state.argv.length then do
      let state ← parseArgument function body state
      optionLoop fuel state
    else .ok state

/-- The variables at the start. -/
def startParsing (argv : List (List UInt8)) : OptionState where
  argv := argv
  optargind := 1
  optnomore := false
  optcontrol := 0
  optcurrent := ⟨.argv 0, 0⟩
  optptr := none
  optArg := none
  optlength := 0
  opttype := .short
  actions := []
  kept := []

/-- A parse function: `preParseArgs` or `parseArgs`. -/
def parse (argv : List (List UInt8)) : Except Stop OptionState :=
  optionLoop function body (argv.length + 1) (startParsing argv)

/-- The states in which the loop starts a round. -/
inductive StartsRound (argv : List (List UInt8)) : OptionState → Prop
  | start : StartsRound argv (startParsing argv)
  | round {state next : OptionState} (arrives : StartsRound argv state)
    (more : state.optargind < state.argv.length)
    (parses : parseArgument function body state = .ok next) : StartsRound argv next

end Macros

/-! ### The list of arguments -/

/-- The arguments that are left, whether options have ended, and the actions so far. -/
structure Scan where
  remaining : List (List UInt8)
  optnomore : Bool
  actions : List Action
  deriving DecidableEq, Repr

/-- The argument in the same element, if there is one. -/
def attached (more : List UInt8) : Option (List UInt8) := if more = [] then none else some more

/-- The argument of an option that needs one: in the same element, or the next element. -/
def Scan.takeArgument (scan : Scan) (name : List UInt8) :
    Option (List UInt8) → Except Stop (List UInt8 × Scan)
  | some argument => .ok (argument, scan)
  | none =>
    match scan.remaining with
    | [] => .error (scan.actions, .failed (optionMessage name " requires an argument\n"))
    | argument :: remaining => .ok (argument, { scan with remaining := remaining })

section Reader

variable (function : ParseFunction) (body : Bodies)

/-- Take an action, and go on unless it ends the program. -/
def Scan.perform (action : Action) (scan : Scan) : Except Stop Scan :=
  match body.ends (scan.actions ++ [action]) with
  | none => .ok { scan with actions := scan.actions ++ [action] }
  | some ended => .error (scan.actions ++ [action], ended)

/-- Run an option that needs an argument. -/
def Scan.required (check : OptionCheck) (name : List UInt8) (optArg : Option (List UInt8))
    (scan : Scan) : Except Stop Scan := do
  let (argument, scan) ← scan.takeArgument name optArg
  scan.perform body (.option check (some argument))

/-- An option that does not exist. -/
def Scan.unknown (scan : Scan) (name : List UInt8) : Except Stop Scan :=
  match function with
  | .preParseArgs => .ok scan
  | .parseArgs _ => .error (scan.actions, .failed (optionMessage name " does not exist\n"))

/-- A short option: its letter, what follows it in the same element, and how to go on there if
the option takes no argument. -/
def readLetter (letter : UInt8) (more : List UInt8) (again : Scan → Except Stop Scan)
    (scan : Scan) : Except Stop Scan :=
  let name := 0x2D :: if letter = 0 then [] else [letter]
  match optionChecks.find? fun check => check.isShort letter with
  | none => scan.unknown function name
  | some check =>
    match check.argReq with
    | .noArg => do
      let scan ← scan.perform body (.option check none)
      again scan
    | .optionalArg => scan.perform body (.option check (attached more))
    | .requiredArg => scan.required body check name (attached more)

/-- The short options of one element. -/
def readGroup : (letter : UInt8) → (more : List UInt8) → Scan → Except Stop Scan
  | letter, [] => readLetter function body letter [] .ok
  | letter, next :: more => readLetter function body letter (next :: more) (readGroup next more)

/-- A long option. -/
def readLong (element : List UInt8) (scan : Scan) : Except Stop Scan :=
  let length := element.findIdx (· == 0x3D)
  let name := element.take (min length maximalLength)
  let optArg := if length = element.length then none else some (element.drop (length + 1))
  match optionChecks.find? fun check => check.isLong (min length maximalLength) element with
  | none => scan.unknown function name
  | some check =>
    let after := { scan with optnomore := scan.optnomore || check == doubleDash }
    match check.argReq with
    | .noArg =>
      if optArg = none then after.perform body (.option check none)
      else .error (scan.actions, .failed (optionMessage name " does not take an argument\n"))
    | .optionalArg => after.perform body (.option check optArg)
    | .requiredArg => after.required body check name optArg

/-- One element, with those behind it in `scan`. -/
def readElement (element : List UInt8) (scan : Scan) : Except Stop Scan :=
  if element.head? = some 0x2D && !scan.optnomore then
    if element[1]? = some 0x2D then readLong function body element scan
    else readGroup function body (element.getD 1 0) (element.drop 2) scan
  else scan.perform body (.noOption element)

end Reader

/-! ### The loop reads the list -/

section Pointers

variable {state : OptionState} {pointer : Pointer} {text : List UInt8}

theorem char_eq (reads : state.text pointer = .ok text) {index : Nat}
    (inside : index ≤ text.length) : state.char pointer index = .ok (text.getD index 0) := by
  rw [OptionState.char, reads, ok_bind, if_pos inside]

theorem text_eq {whole : List UInt8} (found : state.block pointer.block = some whole)
    (inside : pointer.offset ≤ whole.length) :
    state.text pointer = .ok (whole.drop pointer.offset) := by
  rw [OptionState.text, found]
  exact if_pos inside

theorem exists_block (reads : state.text pointer = .ok text) :
    ∃ whole, state.block pointer.block = some whole ∧ pointer.offset ≤ whole.length ∧
      whole.drop pointer.offset = text := by
  unfold OptionState.text at reads
  cases found : state.block pointer.block with
  | none =>
    rw [found] at reads
    contradiction
  | some whole =>
    rw [found] at reads
    dsimp only at reads
    by_cases inside : pointer.offset ≤ whole.length
    · rw [if_pos inside, Except.ok.injEq] at reads
      exact ⟨whole, rfl, inside, reads⟩
    · rw [if_neg inside] at reads
      contradiction

theorem text_plus (reads : state.text pointer = .ok text) {count : Nat}
    (inside : count ≤ text.length) : state.text (pointer.plus count) = .ok (text.drop count) := by
  obtain ⟨whole, found, starts, rfl⟩ := exists_block reads
  rw [List.length_drop] at inside
  have ends : pointer.offset + count ≤ whole.length := by omega
  rw [@text_eq state (pointer.plus count) whole found ends, List.drop_drop]
  rfl

/-- Rewriting the first character of a string in the copy. -/
theorem store_copy {whole : List UInt8} {offset : Nat} (copied : state.optptr = some whole)
    (inside : offset < whole.length) (c : UInt8) :
    state.store ⟨.copy, offset⟩ c = .ok { state with optptr := some (whole.set offset c) } := by
  unfold OptionState.store OptionState.text
  rw [OptionState.block, copied]
  dsimp only
  rw [if_pos (Nat.le_of_lt inside), ok_bind, List.length_drop, if_neg (by omega)]
  rfl

end Pointers

/-- The variables of the loop agree with a reader that has the elements from `optargind + ahead`
on before it. No body has written there. -/
structure Accompanies (body : Bodies) (argv : List (List UInt8)) (ahead : Nat)
    (state : OptionState) (scan : Scan) : Prop where
  unread : state.argv.drop (state.optargind + ahead) = scan.remaining
  remaining : scan.remaining = argv.drop (state.optargind + ahead)
  optnomore : scan.optnomore = state.optnomore
  actions : scan.actions = state.actions
  unchanged : body.Quiet → state.argv = argv

/-- At `next_opt`, with a short option: what the current string holds behind its dash. The first
letter of an element is read in the vector, the others in the copy. -/
structure AtShort (body : Bodies) (argv : List (List UInt8)) (text : List UInt8)
    (state : OptionState) (scan : Scan) : Prop where
  follows : Accompanies body argv 1 state scan
  opttype : state.opttype = .short
  optlength : state.optlength = 2
  reads : state.text state.optcurrent = .ok (0x2D :: text)
  optArg : state.optArg = if text.drop 1 = [] then none else some (state.optcurrent.plus 2)
  optcontrol : state.optcontrol = 0 ∧ state.optcurrent.block = .argv state.optargind ∨
    state.optcontrol = 2 ∧ state.optcurrent.block = .copy

/-- At `next_opt`, with a long option whose name has the given length, counted with its dashes. -/
structure AtLong (body : Bodies) (argv : List (List UInt8)) (element : List UInt8) (length : Nat)
    (state : OptionState) (scan : Scan) : Prop where
  follows : Accompanies body argv 1 state scan
  opttype : state.opttype = .long
  optlength : state.optlength = min length maximalLength
  bounded : length ≤ element.length
  reads : state.text state.optcurrent = .ok element
  optArg : state.optArg =
    if length = element.length then none else some (state.optcurrent.plus (length + 1))
  optcontrol : state.optcontrol = 0 ∧ state.optcurrent.block = .argv state.optargind

/-- A body writes over elements that were read. -/
def WritesBehind (state : OptionState) : Prop :=
  ∀ pointer, state.optArg = some pointer →
    pointer.block = .argv state.optargind ∨ pointer.block = .copy

/-- At `next_opt`, with either: the current string, and the argument that both sides have found. -/
structure AtOption (body : Bodies) (argv : List (List UInt8)) (text : List UInt8)
    (optArg : Option (List UInt8)) (state : OptionState) (scan : Scan) : Prop where
  follows : Accompanies body argv 1 state scan
  reads : state.text state.optcurrent = .ok text
  finds : argumentOf state = .ok optArg
  behind : WritesBehind state
  alone : state.optcontrol = 0 ∨ state.optcontrol = 2

section Refinement

variable {function : ParseFunction} {body : Bodies} {argv rest : List (List UInt8)}
  {state : OptionState} {scan : Scan} {text element : List UInt8} {fuel : Nat}
  {again : OptionState → Except Stop OptionState}

theorem fatalOption_eq {Value : Type} (reads : state.text state.optcurrent = .ok text)
    (message : String) :
    (fatalOption state message : Except Stop Value) =
      .error (state.actions, .failed (optionMessage (text.take state.optlength) message)) := by
  unfold fatalOption
  rw [reads]
  rfl

theorem perform_agrees {ahead : Nat} (follows : Accompanies body argv ahead state scan)
    (action : Action) :
    Agree (fun after scan' => after = { state with actions := state.actions ++ [action] } ∧
        scan' = { scan with actions := scan.actions ++ [action] })
      (perform body action state) (scan.perform body action) := by
  unfold perform Scan.perform
  dsimp only
  rw [follows.actions]
  cases body.ends (state.actions ++ [action]) with
  | none => exact ⟨rfl, rfl⟩
  | some ended => exact rfl

theorem overwrite_follows {ahead : Nat} (follows : Accompanies body argv ahead state scan)
    {pointer : Pointer} (behind : pointer.block = .argv state.optargind ∨ pointer.block = .copy)
    (ahead_pos : 0 < ahead) (actions : List Action) :
    Accompanies body argv ahead (state.overwrite pointer (body.writes actions)) scan := by
  unfold OptionState.overwrite
  rcases behind with inVector | inCopy
  · rw [inVector]
    refine { follows with unread := ?_, unchanged := fun quiet => ?_ }
    · exact (List.drop_modify_of_lt _ _ _ _ (by dsimp only; omega)).trans follows.unread
    · have same : (fun text : List UInt8 => text.take pointer.offset ++
          body.writes actions (text.drop pointer.offset)) = id := by
        funext text
        rw [quiet, List.take_append_drop]
        rfl
      dsimp only
      rw [same, List.modify_id]
      exact follows.unchanged quiet
  · rw [inCopy]
    exact { follows with }

/-- The body of an option, with an argument that both sides have found. -/
theorem runOption_agrees (follows : Accompanies body argv 1 state scan)
    (behind : WritesBehind state) (check : OptionCheck) {optArg : Option (List UInt8)}
    (finds : argumentOf state = .ok optArg) :
    Agree (fun after scan' => Accompanies body argv 1 after scan' ∧
        after.optcontrol = state.optcontrol ∧ (state.optArg = none →
          ∃ actions optnomore, after = { state with actions := actions, optnomore := optnomore }))
      (runOption function body check state)
      (({ scan with optnomore := scan.optnomore || check == doubleDash } : Scan).perform body
        (.option check optArg)) := by
  unfold runOption
  rw [finds, ← bind_pure (Scan.perform _ _ _)]
  have follows' : Accompanies body argv 1
      { state with optnomore := state.optnomore || check == doubleDash }
      { scan with optnomore := scan.optnomore || check == doubleDash } :=
    { follows with optnomore := congrArg (· || check == doubleDash) follows.optnomore }
  refine (perform_agrees follows' (.option check optArg)).bind ?_
  rintro performed scan' ⟨isPerformed, rfl⟩
  have follows'' : Accompanies body argv 1 performed
      { scan with
        optnomore := scan.optnomore || check == doubleDash
        actions := scan.actions ++ [.option check optArg] } := by
    subst isPerformed
    exact { follows' with actions := congrArg (· ++ _) follows.actions }
  have same : performed.optArg = state.optArg := isPerformed ▸ rfl
  rcases Option.eq_none_or_eq_some state.optArg with missing | ⟨pointer, given⟩
  · rw [useArgument_none function body (same.trans missing)]
    exact ⟨follows'', isPerformed ▸ rfl, fun _ => ⟨_, _, isPerformed⟩⟩
  · have behind' : pointer.block = .argv performed.optargind ∨ pointer.block = .copy :=
      isPerformed ▸ behind pointer given
    rw [useArgument_some function body (same.trans given)]
    refine ⟨{ overwrite_follows follows'' behind' Nat.one_pos _ with }, ?_,
      fun missing => absurd (given.symm.trans missing) (by simp)⟩
    exact (OptionState.overwrite_optcontrol _ _ _).trans (isPerformed ▸ rfl)

theorem ne_doubleDash {letter : UInt8}
    (found : (optionChecks.find? fun check => check.isShort letter) = some check) :
    (check == doubleDash) = false := by
  have short := List.find?_some found
  rw [beq_eq_false_iff_ne]
  rintro rfl
  exact absurd short (by simp [OptionCheck.isShort, doubleDash, longOption])

theorem AtShort.atOption (atShort : AtShort body argv text state scan) :
    AtOption body argv (0x2D :: text) (attached (text.drop 1)) state scan := by
  have given := atShort.optArg
  refine ⟨atShort.follows, atShort.reads, ?_, fun pointer isArgument => ?_,
    atShort.optcontrol.imp And.left And.left⟩
  · unfold argumentOf attached
    by_cases alone : text.drop 1 = []
    · rw [given, if_pos alone, if_pos alone]
    · have long : 2 ≤ (0x2D :: text).length := by
        cases text with
        | nil => exact absurd rfl alone
        | cons letter more => simp
      rw [given, if_neg alone, if_neg alone]
      dsimp only
      rw [text_plus atShort.reads long]
      rfl
  · rw [given, Option.ite_none_left_eq_some] at isArgument
    obtain ⟨-, ⟨⟩⟩ := isArgument
    exact atShort.optcontrol.imp And.right And.right

/-- The first letter is copied, the later ones are in the copy already. -/
theorem copyOption_eq (reads : state.text state.optcurrent = .ok text)
    (grouped : state.optcontrol = 1 ∨ state.optcontrol = 3 ∧ state.optcurrent.block = .copy) :
    ∃ whole offset, whole.drop offset = text ∧
      copyOption state =
        .ok { state with optptr := some whole, optcurrent := ⟨.copy, offset⟩ } := by
  unfold copyOption
  rcases grouped with first | ⟨later, inCopy⟩
  · rw [if_pos first, reads]
    exact ⟨text, 0, rfl, rfl⟩
  · obtain ⟨whole, found, -, rest⟩ := exists_block reads
    rw [inCopy] at found
    refine ⟨whole, state.optcurrent.offset, rest, ?_⟩
    rw [if_neg (by omega), ← inCopy]
    exact congrArg (fun optptr => Except.ok { state with optptr := optptr }) found

/-- The next letter of a group. -/
theorem shiftOption_eq {letter next : UInt8} {more : List UInt8}
    (follows : Accompanies body argv 1 state scan)
    (reads : state.text state.optcurrent = .ok (0x2D :: letter :: next :: more))
    (grouped : state.optcontrol = 1 ∨ state.optcontrol = 3 ∧ state.optcurrent.block = .copy)
    (short : state.opttype = .short) (length : state.optlength = 2) (noNul : 0 ∉ more) :
    ∃ after, shiftOption state = .ok after ∧ AtShort body argv (next :: more) after scan ∧
      after.optcurrent.block = .copy ∧ after.kept = state.kept := by
  obtain ⟨whole, offset, rest, copies⟩ := copyOption_eq reads grouped
  have lengths := congrArg List.length rest
  simp only [List.length_drop, List.length_cons] at lengths
  have inside : offset + 1 < whole.length := by omega
  have shifted : (whole.set (offset + 1) 0x2D).drop (offset + 1) = 0x2D :: next :: more := by
    rw [List.drop_eq_getElem_cons (by rwa [List.length_set]), List.getElem_set_self,
      List.drop_set_of_lt (by omega), ← List.drop_drop, ← List.drop_drop, rest]
    rfl
  unfold shiftOption
  rw [copies, ok_bind]
  dsimp only [Pointer.plus]
  rw [store_copy rfl inside, ok_bind]
  generalize isAfter : ({ state with
    optptr := some (whole.set (offset + 1) 0x2D), optcontrol := 2,
    optcurrent := ⟨.copy, offset + 1⟩ } : OptionState) = after
  have reads' : after.text after.optcurrent = .ok (0x2D :: next :: more) := by
    rw [← shifted, ← isAfter]
    exact text_eq rfl (by simpa using Nat.le_of_lt inside)
  rw [char_eq reads' (by simp), ok_bind]
  subst isAfter
  refine ⟨_, rfl, ⟨{ follows with }, short, length, reads', ?_, Or.inr ⟨rfl, rfl⟩⟩, rfl, rfl⟩
  cases more with
  | nil => rfl
  | cons following more =>
    have visible : following ≠ 0 := fun isNul => noNul (isNul ▸ List.mem_cons_self)
    exact if_pos visible

/-- Behind a body, when the element has no further letter. -/
theorem checkNext_agrees (follows : Accompanies body argv 1 state scan)
    (alone : state.optcontrol = 0 ∨ state.optcontrol = 2) :
    Agree (Accompanies body argv 1) (checkNext again state) (.ok scan) := by
  unfold checkNext
  rw [if_neg (by omega)]
  by_cases copied : state.optcontrol = 2
  · rw [if_pos copied]
    exact { follows with }
  · rw [if_neg copied]
    exact follows

section Options

variable {optArg : Option (List UInt8)}
  (atOption : AtOption body argv text optArg state scan)

include atOption

/-- An option that is the last one of its element. -/
theorem AtOption.last (check : OptionCheck) :
    Agree (Accompanies body argv 1) (runOption function body check state >>= checkNext again)
      (({ scan with optnomore := scan.optnomore || check == doubleDash } : Scan).perform body
        (.option check optArg)) := by
  rw [← bind_pure (Scan.perform _ _ _)]
  refine (runOption_agrees atOption.follows atOption.behind check atOption.finds).bind ?_
  rintro after scan' ⟨follows', same, -⟩
  exact checkNext_agrees follows' (same ▸ atOption.alone)

/-- The argument is the next element. -/
theorem AtOption.takesNext (inside : state.optargind + 1 < state.argv.length) :
    AtOption body argv text (some state.argv[state.optargind + 1])
      { state with
        optargind := state.optargind + 1
        optArg := some ⟨.argv (state.optargind + 1), 0⟩ }
      { scan with remaining := state.argv.drop (state.optargind + 1 + 1) } := by
  have follows := atOption.follows
  have rest : state.argv.drop (state.optargind + 1 + 1) =
      argv.drop (state.optargind + 1 + 1) := by
    have same := congrArg (List.drop 1) (follows.unread.trans follows.remaining)
    rwa [List.drop_drop, List.drop_drop] at same
  refine ⟨{ follows with unread := rfl, remaining := rest }, atOption.reads, ?_,
    by rintro pointer ⟨⟩; exact Or.inl rfl, atOption.alone⟩
  unfold argumentOf
  dsimp only
  rw [@text_eq _ _ state.argv[state.optargind + 1]]
  · rfl
  · exact List.getElem?_eq_getElem inside
  · exact Nat.zero_le _

/-- An option that needs an argument. -/
theorem AtOption.required (check : OptionCheck) :
    Agree (Accompanies body argv 1)
      (do
        let state ← checkArg .requiredArg state
        let state ← runOption function body check state
        checkNext again state)
      (({ scan with optnomore := scan.optnomore || check == doubleDash } : Scan).required body
        check (text.take state.optlength) optArg) := by
  have follows := atOption.follows
  have finds := atOption.finds
  unfold Scan.required
  cases optArg with
  | some argument =>
    have given : state.optArg ≠ none := by
      intro missing
      rw [argumentOf, missing] at finds
      exact absurd (Except.ok.inj finds) (by simp)
    have checks : checkArg .requiredArg state = .ok state := by
      rw [checkArg, if_neg fun both => given both.1, if_neg given]
    rw [checks]
    exact atOption.last check
  | none =>
    have missing : state.optArg = none := by
      cases given : state.optArg with
      | none => rfl
      | some pointer =>
        rw [argumentOf, given] at finds
        obtain ⟨argument, -, isSome⟩ := bind_eq_ok.mp finds
        exact absurd (Except.ok.inj isSome) (by simp)
    by_cases last : state.optargind + 1 ≥ state.argv.length
    · have nothing : scan.remaining = [] := follows.unread ▸ List.drop_eq_nil_of_le last
      rw [checkArg, if_pos ⟨missing, last⟩, fatalOption_eq atOption.reads, Scan.takeArgument,
        nothing, ← follows.actions]
      exact rfl
    · have inside : state.optargind + 1 < state.argv.length := Nat.lt_of_not_le last
      have next : scan.remaining =
          state.argv[state.optargind + 1] :: state.argv.drop (state.optargind + 1 + 1) :=
        follows.unread.symm.trans (List.drop_eq_getElem_cons inside)
      rw [checkArg, if_neg fun both => last both.2, if_pos missing, Scan.takeArgument, next]
      exact (atOption.takesNext inside).last check

/-- A name that no option has. -/
theorem AtOption.unknown (tests : matching state = .ok none) :
    Agree (Accompanies body argv 1) (nextOpt function body (fuel + 1) state)
      (scan.unknown function (text.take state.optlength)) := by
  unfold nextOpt Scan.unknown
  rw [tests, OptionState.attempt_bind]
  cases function with
  | preParseArgs => exact atOption.follows
  | parseArgs dwfilterMode =>
    dsimp only
    rw [fatalOption_eq atOption.reads, ← atOption.follows.actions]
    exact rfl

end Options

/-- The short options behind a letter. -/
def readLetters (function : ParseFunction) (body : Bodies) :
    List UInt8 → Scan → Except Stop Scan
  | [] => .ok
  | next :: more => readGroup function body next more

theorem AtShort.matching (atShort : AtShort body argv text state scan) :
    matching state =
      .ok (optionChecks.find? fun check => check.isShort (text.headD 0)) := by
  have second : state.char state.optcurrent 1 = .ok (text.headD 0) := by
    rw [char_eq atShort.reads (by simp)]
    cases text <;> rfl
  unfold Dwdiff.matching
  rw [atShort.opttype]
  dsimp only
  rw [second, ok_bind]

/-- A letter that takes no argument and is followed by another one. -/
theorem nextOpt_noArg {letter next : UInt8} {more : List UInt8}
    (atShort : AtShort body argv (letter :: next :: more) state scan)
    (noNul : 0 ∉ next :: more) {check : OptionCheck}
    (found : (optionChecks.find? fun check => check.isShort letter) = some check)
    (noArg : check.argReq = .noArg) (fuel : Nat) :
    ∃ shift, nextOpt function body (fuel + 1) state = shift >>= nextOpt function body fuel ∧
      Agree (fun after scan' => AtShort body argv (next :: more) after scan' ∧
          after.optcurrent.block = .copy ∧ after.kept = state.kept)
        shift (scan.perform body (.option check none)) := by
  let counted := { state with optcontrol := state.optcontrol + 1, optArg := none }
  have checks : checkArg .noArg state = .ok counted := by
    rw [checkArg, if_pos (by rw [atShort.optArg, if_neg (by simp)]; simp), if_pos atShort.opttype]
  have agrees := @runOption_agrees function body argv counted scan
    { atShort.follows with } (by rintro pointer ⟨⟩) check none rfl
  rw [ne_doubleDash found, Bool.or_false] at agrees
  have grouped : counted.optcontrol = 1 ∨
      counted.optcontrol = 3 ∧ counted.optcurrent.block = .copy :=
    atShort.optcontrol.imp (fun first => congrArg (· + 1) first.1)
      (And.imp_left (congrArg (· + 1)))
  refine ⟨runOption function body check counted >>= fun state =>
    state.attempt (shiftOption state), ?_, ?_⟩
  · have tests : matching state = .ok (some check) := found ▸ atShort.matching
    rw [nextOpt_some function body tests, noArg, checks]
    show runOption function body check counted >>= checkNext (nextOpt function body fuel) = _
    rw [runOption_none function body rfl, perform]
    dsimp only
    cases body.ends (counted.actions ++ [.option check none]) with
    | none => exact if_pos (grouped.imp_right And.left)
    | some ended => rfl
  · rw [← bind_pure (Scan.perform _ _ _)]
    refine agrees.bind fun after scan' => ?_
    rintro ⟨follows', -, unchanged⟩
    obtain ⟨actions, optnomore, rfl⟩ := unchanged rfl
    obtain ⟨shifted, shifts, atShort', inCopy, kept⟩ := @shiftOption_eq _ _ _ _ letter next more
      follows' atShort.reads grouped atShort.opttype atShort.optlength
      (List.not_mem_of_not_mem_cons noNul)
    rw [shifts]
    exact ⟨atShort', inCopy, kept⟩

/-- The letters of an element, from `next_opt` on. -/
theorem nextOpt_agrees (atShort : AtShort body argv text state scan) (noNul : 0 ∉ text)
    (enough : text.length < fuel) :
    Agree (Accompanies body argv 1) (nextOpt function body fuel state)
      (readGroup function body (text.headD 0) (text.drop 1) scan) := by
  induction fuel generalizing text state scan with
  | zero => omega
  | succ fuel inductionHypothesis =>
    have name : (0x2D :: if text.headD 0 = 0 then [] else [text.headD 0]) =
        (0x2D :: text).take state.optlength := by
      rw [atShort.optlength]
      cases text with
      | nil => rfl
      | cons letter more =>
        have visible : letter ≠ 0 := fun isNul => noNul (isNul ▸ List.mem_cons_self)
        rw [List.headD_cons, if_neg visible]
        rfl
    have group : readGroup function body (text.headD 0) (text.drop 1) =
        readLetter function body (text.headD 0) (text.drop 1)
          (readLetters function body (text.drop 1)) := by
      rcases text with _ | ⟨letter, _ | ⟨next, more⟩⟩ <;> rfl
    rw [group]
    unfold readLetter
    rw [name]
    dsimp only
    cases found : optionChecks.find? fun check => check.isShort (text.headD 0) with
    | none => exact atShort.atOption.unknown (found ▸ atShort.matching)
    | some check =>
      have same : ({ scan with optnomore := scan.optnomore || check == doubleDash } : Scan) =
          scan := by rw [ne_doubleDash found, Bool.or_false]
      have last := @AtOption.last function _ _ _ _ _ (nextOpt function body fuel) _
        atShort.atOption check
      have required := @AtOption.required function _ _ _ _ _ (nextOpt function body fuel) _
        atShort.atOption check
      rw [same] at last required
      have tests : matching state = .ok (some check) := found ▸ atShort.matching
      dsimp only
      cases isArgReq : check.argReq with
      | optionalArg =>
        rw [nextOpt_some function body tests, isArgReq]
        exact last
      | requiredArg =>
        rw [nextOpt_some function body tests, isArgReq]
        exact required
      | noArg =>
        by_cases single : text.drop 1 = []
        · have checks : checkArg .noArg state = .ok state := by
            rw [checkArg, if_neg (by rw [atShort.optArg, if_pos single]; simp)]
          rw [single, ← bind_pure (Scan.perform _ _ _)] at last
          rw [nextOpt_some function body tests, isArgReq, checks, single]
          exact last
        · -- The letter is followed by another one, which is not its argument.
          obtain ⟨letter, next, more, rfl⟩ : ∃ letter next more, text = letter :: next :: more := by
            rcases text with _ | ⟨letter, _ | ⟨next, more⟩⟩
            · exact absurd rfl single
            · exact absurd rfl single
            · exact ⟨letter, next, more, rfl⟩
          have noNul' := List.not_mem_of_not_mem_cons noNul
          obtain ⟨shift, shifts, agrees⟩ := @nextOpt_noArg function body argv state scan letter
            next more atShort noNul' check found isArgReq fuel
          rw [shifts]
          refine agrees.bind fun after scan' both => ?_
          exact inductionHypothesis both.1 noNul' (Nat.lt_of_succ_lt_succ enough)

/-- The start of an element that begins with one dash. -/
theorem startOption_short (follows : Accompanies body argv 1 state scan)
    (reads : state.text state.optcurrent = .ok (0x2D :: text)) (noNul : 0 ∉ text)
    (single : text.head? ≠ some 0x2D)
    (fresh : state.optcontrol = 0 ∧ state.optcurrent.block = .argv state.optargind) :
    ∃ after, startOption state = .ok after ∧ AtShort body argv text after scan ∧
      after.optcontrol = 0 ∧ after.kept = state.kept := by
  unfold startOption
  rw [char_eq reads (by simp), ok_bind]
  rcases text with _ | ⟨letter, more⟩
  · exact ⟨_, rfl, ⟨{ follows with }, rfl, rfl, reads, rfl, Or.inl fresh⟩, fresh.1, rfl⟩
  · have visible : letter ≠ 0 := fun isNul => noNul (isNul ▸ List.mem_cons_self)
    have other : letter ≠ 0x2D := fun isDash => single (congrArg some isDash)
    rw [show (0x2D :: letter :: more).getD 1 0 = letter from rfl, if_neg other, if_pos visible,
      char_eq reads (by simp), ok_bind]
    refine ⟨_, rfl, ⟨{ follows with }, rfl, rfl, reads, ?_, Or.inl fresh⟩, fresh.1, rfl⟩
    cases more with
    | nil => rfl
    | cons next more =>
      have visible' : next ≠ 0 := fun isNul => noNul (by simp [isNul])
      exact if_pos (bne_iff_ne.mpr visible')

/-- The start of an element that begins with two dashes. -/
theorem startOption_long (follows : Accompanies body argv 1 state scan)
    (reads : state.text state.optcurrent = .ok element) (double : element[1]? = some 0x2D)
    (fresh : state.optcontrol = 0 ∧ state.optcurrent.block = .argv state.optargind) :
    ∃ after, startOption state = .ok after ∧
      AtLong body argv element (element.findIdx (· == 0x3D)) after scan := by
  have long : 1 < element.length := (List.getElem?_eq_some_iff.mp double).1
  have second : element.getD 1 0 = 0x2D := by
    rw [List.getD_eq_getElem?_getD, double]
    rfl
  unfold startOption
  rw [char_eq reads (Nat.le_of_lt long), ok_bind, if_pos second, reads, ok_bind]
  dsimp only
  by_cases alone : element.findIdx (· == 0x3D) = element.length
  · rw [if_pos alone]
    exact ⟨_, rfl, { follows with }, rfl, rfl, List.findIdx_le_length, reads,
      (if_pos alone).symm, fresh⟩
  · rw [if_neg alone]
    exact ⟨_, rfl, { follows with }, rfl, rfl, List.findIdx_le_length, reads,
      (if_neg alone).symm, fresh⟩

theorem AtLong.atOption {length : Nat} (atLong : AtLong body argv element length state scan) :
    AtOption body argv element
      (if length = element.length then none else some (element.drop (length + 1))) state scan := by
  have bounded := atLong.bounded
  have given := atLong.optArg
  refine ⟨atLong.follows, atLong.reads, ?_, fun pointer isArgument => ?_,
    Or.inl atLong.optcontrol.1⟩
  · unfold argumentOf
    rw [given]
    by_cases alone : length = element.length
    · rw [if_pos alone, if_pos alone]
    · rw [if_neg alone, if_neg alone]
      dsimp only
      rw [text_plus atLong.reads (by omega)]
      rfl
  · rw [given, Option.ite_none_left_eq_some] at isArgument
    obtain ⟨-, ⟨⟩⟩ := isArgument
    exact Or.inl atLong.optcontrol.2

/-- A long option, from `next_opt` on. -/
theorem nextOpt_long (atLong : AtLong body argv element (element.findIdx (· == 0x3D)) state scan) :
    Agree (Accompanies body argv 1) (nextOpt function body (fuel + 1) state)
      (readLong function body element scan) := by
  have atOption := atLong.atOption
  have isName := atLong.optlength
  have given := atLong.optArg
  unfold readLong
  generalize element.findIdx (· == 0x3D) = length at atOption isName given ⊢
  have tests : matching state =
      .ok (optionChecks.find? fun check => check.isLong (min length maximalLength) element) := by
    unfold matching
    rw [atLong.opttype, atLong.reads, isName]
    rfl
  dsimp only
  rw [← isName] at tests ⊢
  cases found : optionChecks.find? fun check => check.isLong state.optlength element with
  | none => exact atOption.unknown (found ▸ tests)
  | some check =>
    rw [nextOpt_some function body (tests.trans (congrArg _ found))]
    dsimp only
    cases check.argReq with
    | optionalArg => exact atOption.last check
    | requiredArg => exact atOption.required check
    | noArg =>
      by_cases whole : length = element.length
      · have checks : checkArg .noArg state = .ok state := by
          rw [checkArg, if_neg (by rw [given, if_pos whole]; simp)]
        rw [if_pos whole] at atOption
        rw [checks, if_pos (if_pos whole)]
        exact atOption.last check
      · have checks : checkArg .noArg state =
            fatalOption state " does not take an argument\n" := by
          rw [checkArg, if_pos (by rw [given, if_neg whole]; simp), if_neg]
          rw [atLong.opttype]
          decide
        rw [checks, fatalOption_eq atLong.reads, ← atLong.follows.actions,
          if_neg (by rw [if_neg whole]; simp)]
        exact rfl

/-- The element at which a round starts. -/
theorem startsElement (follows : Accompanies body argv 0 state scan)
    (next : scan.remaining = element :: rest) :
    let round := { state with optcontrol := 0, optcurrent := ⟨.argv state.optargind, 0⟩ }
    round.text round.optcurrent = .ok element ∧
      Accompanies body argv 1 round { scan with remaining := rest } := by
  have unread := follows.unread.trans next
  have remaining := follows.remaining.symm.trans next
  rw [Nat.add_zero] at unread remaining
  refine ⟨?_, { follows with unread := ?_, remaining := ?_ }⟩
  · refine @text_eq _ ⟨.argv state.optargind, 0⟩ element ?_ (Nat.zero_le _)
    rw [OptionState.block, ← List.head?_drop, unread]
    rfl
  · exact List.drop_drop ▸ congrArg (List.drop 1) unread
  · exact (List.drop_drop ▸ congrArg (List.drop 1) remaining).symm

/-- A round that starts at a short option. -/
theorem parseElement_short (follows : Accompanies body argv 0 state scan)
    (next : scan.remaining = (0x2D :: text) :: rest) (noNul : 0 ∉ text)
    (single : text.head? ≠ some 0x2D) (enabled : scan.optnomore = false) :
    ∃ after, AtShort body argv text after { scan with remaining := rest } ∧
      after.optcontrol = 0 ∧ after.kept = state.kept ∧
      parseElement function body state =
        nextOpt function body ((0x2D :: text).length + 1) after := by
  obtain ⟨reads, follows'⟩ := startsElement follows next
  obtain ⟨after, starts, atShort, fresh, kept⟩ :=
    startOption_short follows' reads noNul single ⟨rfl, rfl⟩
  refine ⟨after, atShort, fresh, kept, ?_⟩
  unfold parseElement
  dsimp only at reads starts ⊢
  rw [reads, OptionState.attempt_bind, char_eq reads (Nat.zero_le _), OptionState.attempt_bind,
    if_pos (by simp [← follows.optnomore, enabled]), starts, OptionState.attempt_bind]

/-- The body of the loop reads one element. -/
theorem parseElement_agrees (cStrings : ∀ element ∈ argv, 0 ∉ element)
    (follows : Accompanies body argv 0 state scan) (next : scan.remaining = element :: rest) :
    Agree (Accompanies body argv 1) (parseElement function body state)
      (readElement function body element { scan with remaining := rest }) := by
  have found : argv.drop state.optargind = element :: rest := next ▸ follows.remaining.symm
  have noNul := cStrings element (List.mem_of_mem_drop (found ▸ List.mem_cons_self))
  obtain ⟨reads, follows'⟩ := startsElement follows next
  by_cases enters : element.head? = some 0x2D ∧ scan.optnomore = false
  · obtain ⟨dash, enabled⟩ := enters
    obtain ⟨text, rfl⟩ : ∃ text, element = 0x2D :: text := List.head?_eq_some_iff.mp dash
    rw [readElement, if_pos (by simp [enabled])]
    by_cases double : (0x2D :: text)[1]? = some 0x2D
    · obtain ⟨after, starts, atLong⟩ := startOption_long follows' reads double ⟨rfl, rfl⟩
      unfold parseElement
      dsimp only at reads starts ⊢
      rw [reads, OptionState.attempt_bind, char_eq reads (Nat.zero_le _),
        OptionState.attempt_bind, if_pos (by simp [← follows.optnomore, enabled]), starts,
        OptionState.attempt_bind, if_pos double]
      exact nextOpt_long atLong
    · have noNul' := List.not_mem_of_not_mem_cons noNul
      obtain ⟨after, atShort, -, -, isElement⟩ := @parseElement_short function body argv rest
        state scan text follows next noNul' (by rwa [List.head?_eq_getElem?]) enabled
      have agrees := @nextOpt_agrees function body argv after _ text ((0x2D :: text).length + 1)
        atShort noNul' (by rw [List.length_cons]; omega)
      rw [isElement, if_neg double]
      cases text <;> exact agrees
  · have first : ¬ (element.getD 0 0 = 0x2D && !state.optnomore) := by
      rw [← follows.optnomore]
      cases element with
      | nil => simp
      | cons first text => simpa using enters
    unfold parseElement
    dsimp only at reads ⊢
    rw [reads, OptionState.attempt_bind, char_eq reads (Nat.zero_le _), OptionState.attempt_bind,
      if_neg first, readElement, if_neg (by simpa using enters)]
    refine (perform_agrees follows' (.noOption element)).mono fun after scan' both => ?_
    obtain ⟨rfl, rfl⟩ := both
    exact { follows' with actions := congrArg (· ++ _) follows'.actions }

/-- One round of the loop reads one element. -/
theorem parseArgument_agrees (cStrings : ∀ element ∈ argv, 0 ∉ element)
    (follows : Accompanies body argv 0 state scan) (next : scan.remaining = element :: rest) :
    Agree (Accompanies body argv 0) (parseArgument function body state)
      (readElement function body element { scan with remaining := rest }) := by
  rw [parseArgument, ← bind_pure (readElement _ _ _ _)]
  refine (parseElement_agrees cStrings follows next).bind fun after scan' follows' => ?_
  exact { follows' with }

end Refinement

end Dwdiff
