/-
This file models `parseEscapes` of `option.c`, which expands the escapes of an
option argument. The result is written over the argument itself: a read position
and a write position move through one buffer, by different amounts for each of
the escapes.

The buffer is the string with its terminator and nothing else, and an access
outside it is a failure of the model. What the function should compute is given
by a second definition that reads a copy of the string from left to right and
never writes.
-/

import Dwdiff.Library.Outcome
import Dwdiff.Transcoding

namespace Dwdiff

open Outcome

/-! ### Characters -/

def isdigit (c : UInt8) : Bool := 0x30 ≤ c && c ≤ 0x39

def isxdigit (c : UInt8) : Bool := isdigit c || 0x41 ≤ c && c ≤ 0x46 || 0x61 ≤ c && c ≤ 0x66

/-- The value of a hexadecimal digit; `tolower` of a capital letter is 32 more. -/
def hexValue (c : UInt8) : Nat :=
  if isdigit c then c.toNat - 0x30
  else (if c ≤ 0x46 then c.toNat + 32 else c.toNat) - 0x61 + 10

/-- The digits of an octal escape. -/
def isOctal (c : UInt8) : Bool := 0x30 ≤ c && c ≤ 0x37

/-- A backslash. -/
def backslash : UInt8 := 0x5C

/-- The escapes that stand for one fixed character, with that character. -/
def plainEscapes : List (UInt8 × UInt8) :=
  -- \n \r \' \\ \t \b
  [(0x6E, 0x0A), (0x72, 0x0D), (0x27, 0x27), (0x5C, 0x5C), (0x74, 0x09), (0x62, 0x08),
  -- \f \a \v \? \" \e
   (0x66, 0x0C), (0x61, 0x07), (0x76, 0x0B), (0x3F, 0x3F), (0x22, 0x22), (0x65, 0x1B)]

/-! ### Messages -/

def singleBackslash (descr : String) : Failure :=
  .fatal ("Single backslash at end of " ++ descr ++ " argument\n")

def invalidHexadecimal (descr : String) : Failure :=
  .fatal ("Invalid hexadecimal escape sequence in " ++ descr ++ " argument\n")

/-- The letter of a Unicode escape is its `%c` argument. -/
def unicodeLetter (long : Bool) : String := if long then "U" else "u"

def tooShort (long : Bool) (descr : String) : Failure :=
  .fatal ("Too short \\" ++ unicodeLetter long ++ " escape in " ++ descr ++ " argument\n")

def outOfRange (descr : String) : Failure :=
  .fatal ("\\U escape out of range in " ++ descr ++ " argument\n")

def surrogateEscape (long : Bool) (descr : String) : Failure :=
  .fatal ("\\" ++ unicodeLetter long ++
    " escapes for surrogate codepoints are not allowed in " ++ descr ++ " argument\n")

/-! ### Reading from the buffer -/

/-- `string[index]`. -/
def charAt (string : List UInt8) (index : Nat) : Except Failure UInt8 :=
  match string[index]? with
  | some c => .ok c
  | none => .error .undefined

/-- `value <<= 4` and the digit, in a `UChar32`. -/
def shiftIn (value : Int) (c : UInt8) : Int :=
  Int.bmod (value * 16 + hexValue c) (2 ^ 32)

section Reading

variable (descr : String) (string : List UInt8) (maxReadPosition readPosition : Nat)

/-- The loop of a hexadecimal escape, with at most `left` more digits: the number of digits
and the value. -/
def hexLoop : (left i value : Nat) → Except Failure (Nat × Nat)
  | 0, i, value => .ok (i, value)
  | left + 1, i, value =>
    if readPosition + i < maxReadPosition then do
      let c ← charAt string (readPosition + i)
      if isxdigit c then
        if value * 16 + hexValue c > 255 then .error (invalidHexadecimal descr)
        else hexLoop left (i + 1) (value * 16 + hexValue c)
      else .ok (i, value)
    else .ok (i, value)

/-- The loop of an octal escape. -/
def octalLoop : (left i value : Nat) → Except Failure (Nat × Nat)
  | 0, i, value => .ok (i, value)
  | left + 1, i, value =>
    if readPosition + i < maxReadPosition then do
      let c ← charAt string (readPosition + i)
      if isOctal c then octalLoop left (i + 1) (value * 8 + (c.toNat - 0x30))
      else .ok (i, value)
    else .ok (i, value)

/-- The loop of a Unicode escape, which does not look for the end of the string. -/
def unicodeLoop (long : Bool) : (left i : Nat) → (value : Int) → Except Failure Int
  | 0, _, value => .ok value
  | left + 1, i, value => do
    let c ← charAt string (readPosition + i)
    if isxdigit c then unicodeLoop long left (i + 1) (shiftIn value c)
    else .error (tooShort long descr)

/-- The bytes that a Unicode escape stands for. -/
def unicodeBytes (long : Bool) (value : Int) : Except Failure (List UInt8) :=
  if value > 0x10FFFF then .error (outOfRange descr)
  else if land value 0xF800 = 0xD800 then .error (surrogateEscape long descr)
  else .ok (convertToUTF8 value)

/-- The `switch` on the character behind a backslash. -/
def readSwitch (escape : UInt8) : Except Failure (List UInt8 × Nat) :=
  match plainEscapes.lookup escape with
  | some c => .ok ([c], readPosition)
  | none =>
    if escape = 0x78 then do
      let (i, value) ← hexLoop descr string maxReadPosition readPosition 2 0 0
      if i = 0 then .error (invalidHexadecimal descr)
      else .ok ([UInt8.ofNat value], readPosition + i)
    else if isOctal escape then do
      let (i, value) ← octalLoop string maxReadPosition readPosition
        (if escape < 0x34 then 2 else 1) 0 (escape.toNat - 0x30)
      .ok ([UInt8.ofNat value], readPosition + i)
    else if escape = 0x75 || escape = 0x55 then
      let long : Bool := escape = 0x55
      let chars := if long then 8 else 4
      if maxReadPosition < readPosition + chars then .error (tooShort long descr)
      else do
        let value ← unicodeLoop descr string readPosition long chars 0 0
        let bytes ← unicodeBytes descr long value
        .ok (bytes, readPosition + chars)
    else .ok ([escape], readPosition)

/-- What one round of the loop of `parseEscapes` reads: the bytes to be written, and the next
read position. Every round reads before it writes. -/
def readEscape : Except Failure (List UInt8 × Nat) := do
  let c ← charAt string readPosition
  if c = backslash then
    if readPosition + 1 = maxReadPosition then .error (singleBackslash descr)
    else do
      let escape ← charAt string (readPosition + 1)
      readSwitch descr string maxReadPosition (readPosition + 2) escape
  else .ok ([c], readPosition + 1)

end Reading

/-! ### Writing to the buffer -/

/-- `string[index] = c`. -/
def setChar (string : List UInt8) (index : Nat) (c : UInt8) : Except Failure (List UInt8) :=
  if index < string.length then .ok (string.set index c) else .error .undefined

/-- `string[writePosition++] = c`, for each of the bytes. -/
def writeBytes : (string : List UInt8) → (writePosition : Nat) → (bytes : List UInt8) →
    Except Failure (List UInt8)
  | string, _, [] => .ok string
  | string, writePosition, byte :: bytes => do
    let string ← setChar string writePosition byte
    writeBytes string (writePosition + 1) bytes

/-- The variables of `parseEscapes`. -/
structure EscapeState where
  string : List UInt8
  readPosition : Nat
  writePosition : Nat
  deriving DecidableEq, Repr

/-- One round of the loop. -/
def escapeRound (descr : String) (maxReadPosition : Nat) (state : EscapeState) :
    Except Failure EscapeState := do
  let (bytes, readPosition) ← readEscape descr state.string maxReadPosition state.readPosition
  let string ← writeBytes state.string state.writePosition bytes
  .ok ⟨string, readPosition, state.writePosition + bytes.length⟩

/-- The loop of `parseEscapes`. Every round reads a character, so the length of the string is
enough. -/
def escapeLoop (descr : String) (maxReadPosition : Nat) :
    (fuel : Nat) → EscapeState → Except Failure EscapeState
  | 0, _ => .error .diverges
  | fuel + 1, state =>
    if state.readPosition < maxReadPosition then do
      let state ← escapeRound descr maxReadPosition state
      escapeLoop descr maxReadPosition fuel state
    else .ok state

def strlen (string : List UInt8) : Nat := (string.takeWhile (· != 0)).length

/-- `parseEscapes`: the returned length, and the buffer it leaves behind. -/
def parseEscapes (string : List UInt8) (descr : String) : Except Failure (Nat × List UInt8) := do
  let maxReadPosition := strlen string
  let state ← escapeLoop descr maxReadPosition (maxReadPosition + 1) ⟨string, 0, 0⟩
  let string ← setChar state.string state.writePosition 0
  .ok (state.writePosition, string)

/-! ### Expanding a copy -/

section Expanding

variable (descr : String)

/-- The number that a list of digits writes. -/
def digitsValue (base : Nat) (value : UInt8 → Nat) (digits : List UInt8) : Nat :=
  digits.foldl (fun sum digit => sum * base + value digit) 0

/-- A Unicode escape, behind its letter. -/
def expandUnicode (long : Bool) (text : List UInt8) : Except Failure (List UInt8 × List UInt8) :=
  let chars := if long then 8 else 4
  let digits := text.take chars
  if digits.length = chars ∧ digits.all isxdigit then do
    let bytes ← unicodeBytes descr long (digits.foldl shiftIn 0)
    .ok (bytes, text.drop chars)
  else .error (tooShort long descr)

/-- An escape, behind its backslash. -/
def expandEscape : List UInt8 → Except Failure (List UInt8 × List UInt8)
  | [] => .error (singleBackslash descr)
  | escape :: text =>
    match plainEscapes.lookup escape with
    | some c => .ok ([c], text)
    | none =>
      if escape = 0x78 then
        let digits := (text.take 2).takeWhile isxdigit
        if digits = [] then .error (invalidHexadecimal descr)
        else .ok ([UInt8.ofNat (digitsValue 16 hexValue digits)], text.drop digits.length)
      else if isOctal escape then
        let digits := (text.take (if escape < 0x34 then 2 else 1)).takeWhile isOctal
        .ok ([UInt8.ofNat (digitsValue 8 (fun c => c.toNat - 0x30) (escape :: digits))],
          text.drop digits.length)
      else if escape = 0x75 || escape = 0x55 then expandUnicode descr (escape = 0x55) text
      else .ok ([escape], text)

/-- The first character of a text or its first escape: the bytes it stands for, and the rest. -/
def expandFirst : List UInt8 → Except Failure (List UInt8 × List UInt8)
  | [] => .ok ([], [])
  | c :: text => if c = backslash then expandEscape descr text else .ok ([c], text)

/-- The expansion of a text, read from left to right. -/
def expandFrom : (fuel : Nat) → List UInt8 → Except Failure (List UInt8)
  | 0, _ => .error .diverges
  | fuel + 1, text =>
    if text = [] then .ok []
    else do
      let (bytes, text) ← expandFirst descr text
      let others ← expandFrom fuel text
      .ok (bytes ++ others)

/-- The expansion of a text. -/
def expand (text : List UInt8) : Except Failure (List UInt8) :=
  expandFrom descr (text.length + 1) text

end Expanding

/-! ### What a round reads -/

section Rounds

variable {descr : String} {before text after : List UInt8} {maxReadPosition readPosition : Nat}

theorem charAt_append (before : List UInt8) (c : UInt8) (text : List UInt8) :
    charAt (before ++ c :: text) before.length = .ok c := by
  rw [charAt, List.getElem?_append_right (Nat.le_refl _), Nat.sub_self]
  rfl

theorem isdigit_iff (c : UInt8) : isdigit c = true ↔ 0x30 ≤ c.toNat ∧ c.toNat ≤ 0x39 := by
  simp [isdigit, UInt8.le_iff_toNat_le]

theorem isxdigit_iff (c : UInt8) : isxdigit c = true ↔ (0x30 ≤ c.toNat ∧ c.toNat ≤ 0x39) ∨
    (0x41 ≤ c.toNat ∧ c.toNat ≤ 0x46) ∨ (0x61 ≤ c.toNat ∧ c.toNat ≤ 0x66) := by
  simp [isxdigit, isdigit, UInt8.le_iff_toNat_le, or_assoc]

theorem hexValue_lt {c : UInt8} (isDigit : isxdigit c = true) : hexValue c < 16 := by
  have range := (isxdigit_iff c).mp isDigit
  unfold hexValue
  split
  · next decimal =>
    have := (isdigit_iff c).mp decimal
    omega
  · next letter =>
    have notDecimal := mt (isdigit_iff c).mpr letter
    have capital : c ≤ 0x46 ↔ c.toNat ≤ 0x46 := UInt8.le_iff_toNat_le
    rw [show (if c ≤ 0x46 then c.toNat + 32 else c.toNat) =
      if c.toNat ≤ 0x46 then c.toNat + 32 else c.toNat from if_congr capital rfl rfl]
    split <;> omega

/-- The digits that stand at the front of a text, and the text that is left. -/
theorem hexLoop_eq {left i value : Nat} (reached : before.length = readPosition + i)
    (ends : maxReadPosition = before.length + text.length) (small : (value + 1) * 16 ^ left ≤ 256) :
    hexLoop descr (before ++ text ++ after) maxReadPosition readPosition left i value =
      .ok (i + ((text.take left).takeWhile isxdigit).length,
        ((text.take left).takeWhile isxdigit).foldl (fun sum digit => sum * 16 + hexValue digit)
          value) := by
  induction left generalizing before text i value with
  | zero => rfl
  | succ left inductionHypothesis =>
    unfold hexLoop
    cases text with
    | nil =>
      rw [if_neg (by rw [ends, reached]; simp)]
      rfl
    | cons c text =>
      rw [if_pos (by rw [ends, List.length_cons]; omega), ← reached, List.append_assoc,
        List.cons_append, charAt_append, ok_bind, List.take_succ_cons, List.takeWhile_cons]
      by_cases isDigit : isxdigit c = true
      · have digit := hexValue_lt isDigit
        have bound : value * 16 + hexValue c + 1 ≤ (value + 1) * 16 := by omega
        have small' : (value * 16 + hexValue c + 1) * 16 ^ left ≤ 256 := by
          refine (Nat.mul_le_mul_right _ bound).trans ?_
          rwa [Nat.mul_assoc, ← Nat.pow_succ']
        have least : value * 16 + hexValue c + 1 ≤ 256 :=
          (Nat.le_mul_of_pos_right _ (Nat.pow_pos (by decide))).trans small'
        have next := @inductionHypothesis (before ++ [c]) text (i + 1) (value * 16 + hexValue c)
          (by rw [List.length_append, reached]; rfl)
          (by rw [ends, List.length_append, List.length_cons, List.length_singleton]; omega) small'
        rw [if_pos isDigit, if_neg (by omega), if_pos isDigit]
        rw [List.append_assoc, List.append_assoc, List.singleton_append] at next
        rw [next, List.length_cons, List.foldl_cons, Nat.add_assoc, Nat.add_comm 1]
      · rw [if_neg isDigit, if_neg isDigit]
        rfl

theorem octalLoop_eq {left i value : Nat} (reached : before.length = readPosition + i)
    (ends : maxReadPosition = before.length + text.length) :
    octalLoop (before ++ text ++ after) maxReadPosition readPosition left i value =
      .ok (i + ((text.take left).takeWhile isOctal).length,
        ((text.take left).takeWhile isOctal).foldl (fun sum digit => sum * 8 + (digit.toNat - 0x30))
          value) := by
  induction left generalizing before text i value with
  | zero => rfl
  | succ left inductionHypothesis =>
    unfold octalLoop
    cases text with
    | nil =>
      rw [if_neg (by rw [ends, reached]; simp)]
      rfl
    | cons c text =>
      rw [if_pos (by rw [ends, List.length_cons]; omega), ← reached, List.append_assoc,
        List.cons_append, charAt_append, ok_bind, List.take_succ_cons, List.takeWhile_cons]
      by_cases isDigit : isOctal c = true
      · have next := @inductionHypothesis (before ++ [c]) text (i + 1)
          (value * 8 + (c.toNat - 0x30)) (by rw [List.length_append, reached]; rfl)
          (by rw [ends, List.length_append, List.length_cons, List.length_singleton]; omega)
        rw [List.append_assoc, List.append_assoc, List.singleton_append] at next
        rw [if_pos isDigit, if_pos isDigit, next, List.length_cons, List.foldl_cons,
          Nat.add_assoc, Nat.add_comm 1]
      · rw [if_neg isDigit, if_neg isDigit]
        rfl

theorem unicodeLoop_eq {long : Bool} {left i : Nat} {value : Int}
    (reached : before.length = readPosition + i) (enough : left ≤ text.length) :
    unicodeLoop descr (before ++ text ++ after) readPosition long left i value =
      if (text.take left).all isxdigit then .ok ((text.take left).foldl shiftIn value)
      else .error (tooShort long descr) := by
  induction left generalizing before text i value with
  | zero => rfl
  | succ left inductionHypothesis =>
    unfold unicodeLoop
    cases text with
    | nil => exact absurd enough (by simp)
    | cons c text =>
      rw [← reached, List.append_assoc, List.cons_append, charAt_append, ok_bind,
        List.take_succ_cons, List.all_cons]
      by_cases isDigit : isxdigit c = true
      · have next := @inductionHypothesis (before ++ [c]) text (i + 1) (shiftIn value c)
          (by rw [List.length_append, reached]; rfl) (by simpa using enough)
        rw [List.append_assoc, List.append_assoc, List.singleton_append] at next
        rw [if_pos isDigit, next, isDigit, Bool.true_and, List.foldl_cons]
      · rw [if_neg isDigit, Bool.eq_false_iff.mpr isDigit, Bool.false_and]
        rfl

theorem unicode_eq (long : Bool) (ends : maxReadPosition = before.length + text.length) :
    (if maxReadPosition < before.length + (if long then 8 else 4) then .error (tooShort long descr)
      else do
        let value ← unicodeLoop descr (before ++ text ++ after) before.length long
          (if long then 8 else 4) 0 0
        let bytes ← unicodeBytes descr long value
        .ok (bytes, before.length + (if long then 8 else 4))) =
      (expandUnicode descr long text).map fun (bytes, rest) =>
        (bytes, maxReadPosition - rest.length) := by
  rw [expandUnicode]
  dsimp only
  generalize (if long then 8 else 4) = chars
  rw [List.length_take]
  by_cases short : maxReadPosition < before.length + chars
  · rw [if_pos short, if_neg (by omega)]
    rfl
  · rw [if_neg short, unicodeLoop_eq rfl (by omega)]
    have whole : min chars text.length = chars := by omega
    by_cases digits : (text.take chars).all isxdigit = true
    · rw [if_pos digits, if_pos ⟨whole, digits⟩, ok_bind]
      cases unicodeBytes descr long ((text.take chars).foldl shiftIn 0) with
      | error failure => rfl
      | ok bytes =>
        show Except.ok (bytes, before.length + chars) =
          .ok (bytes, maxReadPosition - (text.drop chars).length)
        rw [List.length_drop, show maxReadPosition - (text.length - chars) = before.length + chars
          by omega]
    · rw [if_neg digits, if_neg fun both => digits both.2]
      rfl

theorem readSwitch_eq (escape : UInt8) (ends : maxReadPosition = before.length + text.length) :
    readSwitch descr (before ++ text ++ after) maxReadPosition before.length escape =
      (expandEscape descr (escape :: text)).map fun (bytes, rest) =>
        (bytes, maxReadPosition - rest.length) := by
  have position (count : Nat) (few : count ≤ text.length) :
      before.length + count = maxReadPosition - (text.drop count).length := by
    rw [List.length_drop]
    omega
  have fewer (test : UInt8 → Bool) (count : Nat) :
      ((text.take count).takeWhile test).length ≤ text.length :=
    (List.takeWhile_sublist _).length_le.trans (List.take_sublist _ _).length_le
  unfold readSwitch expandEscape
  dsimp only
  cases plainEscapes.lookup escape with
  | some c => exact congrArg (fun next => Except.ok ([c], next)) (position 0 (Nat.zero_le _))
  | none =>
    dsimp only
    by_cases hexadecimal : escape = 0x78
    · rw [if_pos hexadecimal, if_pos hexadecimal, hexLoop_eq rfl ends (by decide), ok_bind]
      dsimp only
      rw [Nat.zero_add]
      by_cases empty : (text.take 2).takeWhile isxdigit = []
      · rw [if_pos (by rw [empty]; rfl), if_pos empty]
        rfl
      · rw [if_neg (by rwa [List.length_eq_zero_iff]), if_neg empty, position _ (fewer _ _)]
        rfl
    · rw [if_neg hexadecimal, if_neg hexadecimal]
      by_cases octal : isOctal escape = true
      · rw [if_pos octal, if_pos octal, octalLoop_eq rfl ends, ok_bind]
        dsimp only
        rw [Nat.zero_add, position _ (fewer _ _), digitsValue, List.foldl_cons, Nat.zero_mul,
          Nat.zero_add]
        rfl
      · rw [if_neg octal, if_neg octal]
        by_cases unicode : (decide (escape = 0x75) || decide (escape = 0x55)) = true
        · rw [if_pos unicode, if_pos unicode]
          exact unicode_eq _ ends
        · rw [if_neg unicode, if_neg unicode]
          exact congrArg (fun next => Except.ok ([escape], next)) (position 0 (Nat.zero_le _))

/-- A round reads what the expander takes off the text at the read position. -/
theorem readEscape_eq (ends : maxReadPosition = before.length + text.length)
    (something : text ≠ []) :
    readEscape descr (before ++ text ++ after) maxReadPosition before.length =
      (expandFirst descr text).map fun (bytes, rest) => (bytes, maxReadPosition - rest.length) := by
  obtain ⟨c, text, rfl⟩ := List.exists_cons_of_ne_nil something
  rw [List.length_cons] at ends
  have first : charAt (before ++ c :: text ++ after) before.length = .ok c := by
    rw [List.append_assoc, List.cons_append, charAt_append]
  rw [readEscape, first, ok_bind, expandFirst]
  by_cases escaped : c = backslash
  · rw [if_pos escaped, if_pos escaped]
    cases text with
    | nil =>
      rw [if_pos (by simpa using ends.symm)]
      rfl
    | cons escape text =>
      have split : before ++ c :: escape :: text ++ after =
        (before ++ [c]) ++ escape :: (text ++ after) := by simp
      have split' : before ++ c :: escape :: text ++ after =
        (before ++ [c, escape]) ++ text ++ after := by simp
      have second := charAt_append (before ++ [c]) escape (text ++ after)
      rw [← split, List.length_append, List.length_singleton] at second
      have switch := @readSwitch_eq descr (before ++ [c, escape]) text after maxReadPosition escape
        (by rw [ends, List.length_append]; simp; omega)
      rw [← split', List.length_append] at switch
      rw [if_neg (by rw [ends, List.length_cons]; omega), second, ok_bind]
      exact switch
  · rw [if_neg escaped, if_neg escaped]
    show Except.ok ([c], before.length + 1) = .ok ([c], maxReadPosition - text.length)
    rw [ends, show before.length + (text.length + 1) - text.length = before.length + 1 by omega]

end Rounds

/-! ### What the expander takes and gives -/

section Taking

variable {descr : String} {text rest bytes : List UInt8}

/-- The failures of `parseEscapes`. -/
def Failure.IsFatal (failure : Failure) : Prop := ∃ message, failure = .fatal message

/-- Something is taken off the text, and no more bytes are given for it than it had. -/
def Gives (text : List UInt8) (result : List UInt8 × List UInt8) : Prop :=
  ∃ taken, text = taken ++ result.2 ∧ taken ≠ [] ∧ result.1.length ≤ taken.length

theorem Gives.cons {result : List UInt8 × List UInt8} (gives : Gives text result) (c : UInt8) :
    Gives (c :: text) result := by
  obtain ⟨taken, isText, -, fewer⟩ := gives
  exact ⟨c :: taken, by rw [isText, List.cons_append], List.cons_ne_nil c taken,
    fewer.trans (Nat.le_succ _)⟩

/-- One byte for a character and the digits behind it. -/
theorem gives_one (c byte : UInt8) (test : UInt8 → Bool) (count : Nat) (text : List UInt8) :
    Gives (c :: text) ([byte], text.drop ((text.take count).takeWhile test).length) := by
  have starts : (text.take count).takeWhile test <+: text :=
    List.IsPrefix.trans ( List.takeWhile_prefix test) ( List.take_prefix count text)
  refine ⟨c :: (text.take count).takeWhile test, ?_, List.cons_ne_nil _ _, by simp⟩
  rw [List.cons_append, List.prefix_iff_eq_append.mp starts]

theorem convertToUTF8_length_le (c : Int) : (convertToUTF8 c).length ≤ 4 := by
  unfold convertToUTF8
  simp only [convertToUTF8Fill]
  split_ifs <;> simp

theorem unicodeBytes_meets (long : Bool) (value : Int) :
    Meets Failure.IsFatal (fun bytes => bytes.length ≤ 4) (unicodeBytes descr long value) := by
  unfold unicodeBytes
  split_ifs
  · exact ⟨_, rfl⟩
  · exact ⟨_, rfl⟩
  · exact convertToUTF8_length_le value

theorem expandUnicode_meets (long : Bool) (text : List UInt8) :
    Meets Failure.IsFatal (Gives text) (expandUnicode descr long text) := by
  have enough : 4 ≤ if long then 8 else 4 := by cases long <;> decide
  unfold expandUnicode
  dsimp only
  generalize (if long then 8 else 4) = chars at enough ⊢
  split
  · next digits =>
    refine (unicodeBytes_meets long _).bind fun bytes few => ?_
    refine ⟨_, (List.take_append_drop chars text).symm, ?_, ?_⟩
    · rw [← List.length_pos_iff, digits.1]
      omega
    · dsimp only
      rw [digits.1]
      omega
  · exact ⟨_, rfl⟩

theorem expandEscape_meets (text : List UInt8) :
    Meets Failure.IsFatal (Gives text) (expandEscape descr text) := by
  cases text with
  | nil => exact ⟨_, rfl⟩
  | cons escape text =>
    have single (byte : UInt8) : Gives (escape :: text) ([byte], text) :=
      ⟨[escape], rfl, List.cons_ne_nil _ _, Nat.le_refl _⟩
    unfold expandEscape
    dsimp only
    split
    · exact single _
    · split_ifs
      · exact ⟨_, rfl⟩
      · exact gives_one _ _ _ _ _
      · exact gives_one _ _ _ _ _
      · exact gives_one _ _ _ _ _
      · exact (expandUnicode_meets _ text).mono fun result gives => gives.cons escape
      · exact single _

/-- The first escape of a text gives no more bytes than it takes. -/
theorem expandFirst_meets (something : text ≠ []) :
    Meets Failure.IsFatal (Gives text) (expandFirst descr text) := by
  obtain ⟨c, text, rfl⟩ := List.exists_cons_of_ne_nil something
  rw [expandFirst]
  split
  · exact (expandEscape_meets text).mono fun result gives => gives.cons c
  · exact ⟨[c], rfl, List.cons_ne_nil _ _, Nat.le_refl _⟩

end Taking

/-! ### Two positions in one buffer -/

section InPlace

variable {descr : String} {content out gap rest bytes : List UInt8} {state : EscapeState}

theorem setChar_append (before : List UInt8) (old c : UInt8) (after : List UInt8) :
    setChar (before ++ old :: after) before.length c = .ok (before ++ c :: after) := by
  rw [setChar, if_pos (by simp), List.set_append_right _ _ (Nat.le_refl _), Nat.sub_self]
  rfl

theorem writeBytes_eq (before gap after bytes : List UInt8) (fits : bytes.length ≤ gap.length) :
    writeBytes (before ++ gap ++ after) before.length bytes =
      .ok (before ++ bytes ++ gap.drop bytes.length ++ after) := by
  induction bytes generalizing before gap with
  | nil => simp [writeBytes]
  | cons byte bytes inductionHypothesis =>
    obtain ⟨old, gap, rfl⟩ := List.exists_cons_of_length_pos (Nat.zero_lt_of_lt fits)
    have set := setChar_append before old byte (gap ++ after)
    rw [show before ++ byte :: (gap ++ after) = (before ++ [byte]) ++ gap ++ after by simp] at set
    have others := inductionHypothesis (before ++ [byte]) gap (by simpa using fits)
    rw [List.length_append, List.length_singleton] at others
    rw [writeBytes, List.append_assoc, List.cons_append, set, ok_bind, others]
    simp

/-- The buffer in the middle of a run: the bytes written so far, a stretch that was read and may
be overwritten, and the text that is still to be read, untouched. -/
structure Halfway (content out rest : List UInt8) (state : EscapeState) : Prop where
  string : ∃ gap, state.string = out ++ gap ++ (rest ++ [0]) ∧
    state.readPosition = out.length + gap.length
  writePosition : state.writePosition = out.length
  unread : ∃ before, content = before ++ rest ∧ before.length = state.readPosition

/-- One round does what the expander does, or fails as it does. -/
theorem Halfway.round (halfway : Halfway content out rest state) (something : rest ≠ []) :
    (∃ failure, expandFirst descr rest = .error failure ∧
      escapeRound descr content.length state = .error failure) ∨
    ∃ bytes rest' next, expandFirst descr rest = .ok (bytes, rest') ∧
      escapeRound descr content.length state = .ok next ∧
      Halfway content (out ++ bytes) rest' next ∧ rest'.length < rest.length := by
  obtain ⟨gap, isString, isRead⟩ := halfway.string
  obtain ⟨before, isContent, isBefore⟩ := halfway.unread
  have ends : content.length = (out ++ gap).length + rest.length := by
    rw [isContent, List.length_append, isBefore, isRead, List.length_append]
  have reads := @readEscape_eq descr (out ++ gap) rest [0] content.length ends something
  have meets := @expandFirst_meets descr rest something
  have position : state.readPosition = (out ++ gap).length := by rw [isRead, List.length_append]
  rw [escapeRound, isString, position, ← List.append_assoc, reads]
  cases expanded : expandFirst descr rest with
  | error failure => exact Or.inl ⟨failure, rfl, rfl⟩
  | ok result =>
    obtain ⟨bytes, rest'⟩ := result
    rw [expanded] at meets
    obtain ⟨taken, isRest, nonempty, fewer⟩ := meets
    dsimp only at isRest fewer
    have some := List.length_pos_iff.mpr nonempty
    subst isRest
    rw [List.length_append, List.length_append] at ends
    have writes := writeBytes_eq out (gap ++ taken) (rest' ++ [0]) bytes
      (by rw [List.length_append]; omega)
    rw [show out ++ (gap ++ taken) ++ (rest' ++ [0]) =
      out ++ gap ++ (taken ++ rest') ++ [0] by simp] at writes
    refine Or.inr ⟨bytes, rest', ⟨_, content.length - rest'.length, out.length + bytes.length⟩, rfl,
      ?_, ⟨⟨(gap ++ taken).drop bytes.length, rfl, ?_⟩, (List.length_append ..).symm,
        before ++ taken, ?_, ?_⟩, ?_⟩
    · show (writeBytes _ state.writePosition bytes >>= fun string => _) = _
      rw [halfway.writePosition, writes]
      rfl
    · rw [List.length_drop, List.length_append, List.length_append]
      dsimp only
      omega
    · rw [isContent, List.append_assoc]
    · rw [List.length_append, isBefore, isRead]
      dsimp only
      omega
    · rw [List.length_append]
      omega

/-- All the rounds do what the expander does with the whole text. -/
theorem Halfway.loop {fuel : Nat} (halfway : Halfway content out rest state)
    (enough : rest.length < fuel) :
    (∃ failure, expandFrom descr fuel rest = .error failure ∧ failure.IsFatal ∧
      escapeLoop descr content.length fuel state = .error failure) ∨
    ∃ bytes final, expandFrom descr fuel rest = .ok bytes ∧
      escapeLoop descr content.length fuel state = .ok final ∧
      Halfway content (out ++ bytes) [] final := by
  induction fuel generalizing out rest state with
  | zero => exact absurd enough (Nat.not_lt_zero _)
  | succ fuel inductionHypothesis =>
    obtain ⟨before, isContent, isBefore⟩ := halfway.unread
    have more : state.readPosition < content.length ↔ rest ≠ [] := by
      rw [isContent, List.length_append, isBefore, ← List.length_pos_iff]
      omega
    unfold expandFrom escapeLoop
    by_cases atEnd : rest = []
    · rw [if_pos atEnd, if_neg fun reading => more.mp reading atEnd]
      refine Or.inr ⟨[], state, rfl, rfl, ?_⟩
      rw [List.append_nil, ← atEnd]
      exact halfway
    · rw [if_neg atEnd, if_pos (more.mpr atEnd)]
      have meets := @expandFirst_meets descr rest atEnd
      rcases @Halfway.round descr content out rest state halfway atEnd with
        ⟨failure, expands, fails⟩ | ⟨bytes, rest', next, expands, rounds, halfway', fewer⟩
      · rw [expands] at meets
        rw [expands, fails]
        exact Or.inl ⟨failure, rfl, meets, rfl⟩
      · rw [expands, rounds, ok_bind, ok_bind]
        dsimp only
        rcases inductionHypothesis halfway' (by omega) with
          ⟨failure, expands', isFatal, fails⟩ | ⟨others, final, expands', loops, halfway''⟩
        · rw [expands']
          exact Or.inl ⟨failure, rfl, isFatal, fails⟩
        · rw [expands']
          rw [List.append_assoc] at halfway''
          exact Or.inr ⟨bytes ++ others, final, rfl, loops, halfway''⟩

theorem halfway_start (content : List UInt8) :
    Halfway content [] content ⟨content ++ [0], 0, 0⟩ :=
  ⟨⟨[], rfl, rfl⟩, rfl, [], rfl, rfl⟩

theorem strlen_append (noNul : 0 ∉ content) : strlen (content ++ [0]) = content.length := by
  have visible : ∀ c ∈ content, (c != 0) = true := fun c isMember => by
    rw [bne_iff_ne]
    rintro rfl
    exact noNul isMember
  rw [strlen, List.takeWhile_append_of_pos visible]
  simp

/-- The states that the loop of `parseEscapes` runs through. -/
inductive EscapeReaches (descr : String) (content : List UInt8) : EscapeState → Prop
  | start : EscapeReaches descr content ⟨content ++ [0], 0, 0⟩
  | round {state next : EscapeState} (reaches : EscapeReaches descr content state)
    (reading : state.readPosition < content.length)
    (rounds : escapeRound descr content.length state = .ok next) : EscapeReaches descr content next

theorem EscapeReaches.halfway (reaches : EscapeReaches descr content state) :
    ∃ out rest, Halfway content out rest state := by
  induction reaches with
  | start => exact ⟨[], content, halfway_start content⟩
  | round reaches reading rounds inductionHypothesis =>
    obtain ⟨out, rest, halfway⟩ := inductionHypothesis
    have something : rest ≠ [] := by
      rintro rfl
      obtain ⟨before, isContent, isBefore⟩ := halfway.unread
      rw [isContent, List.append_nil] at reading
      omega
    rcases @Halfway.round descr _ _ _ _ halfway something with
      ⟨failure, -, fails⟩ | ⟨bytes, rest', next, -, rounds', halfway', -⟩
    · rw [rounds] at fails
      contradiction
    · rw [rounds] at rounds'
      cases rounds'
      exact ⟨_, _, halfway'⟩

end InPlace

/-- What `parseEscapes` makes of a string, told by the expander: the buffer holds the expansion
and a terminator, the returned length is that of the expansion, and it is no longer than the
string; or both fail alike. -/
theorem parseEscapes_eq (descr : String) {content : List UInt8} (noNul : 0 ∉ content) :
    (∃ failure, expand descr content = .error failure ∧ failure.IsFatal ∧
      parseEscapes (content ++ [0]) descr = .error failure) ∨
    ∃ bytes behind, expand descr content = .ok bytes ∧ bytes.length ≤ content.length ∧
      parseEscapes (content ++ [0]) descr = .ok (bytes.length, bytes ++ 0 :: behind) := by
  rw [parseEscapes, strlen_append noNul]
  rcases @Halfway.loop descr content [] content _ (content.length + 1) (halfway_start content)
    (Nat.lt_succ_self _) with
    ⟨failure, expands, isFatal, fails⟩ | ⟨bytes, final, expands, loops, halfway⟩
  · exact Or.inl ⟨failure, expands, isFatal, by rw [fails]; rfl⟩
  · rw [List.nil_append] at halfway
    obtain ⟨gap, isString, isRead⟩ := halfway.string
    obtain ⟨before, isContent, isBefore⟩ := halfway.unread
    have bound : bytes.length ≤ content.length := by
      rw [isContent, List.append_nil, isBefore, isRead]
      omega
    obtain ⟨old, behind, isTail⟩ : ∃ old behind, gap ++ [0] = old :: behind :=
      List.exists_cons_of_ne_nil (by simp)
    refine Or.inr ⟨bytes, behind, expands, bound, ?_⟩
    rw [loops, ok_bind, isString, halfway.writePosition, List.nil_append, List.append_assoc, isTail,
      setChar_append]
    rfl

/-! ### Writing every byte as an escape -/

/-- A hexadecimal digit, as a capital or a small letter. -/
def hexDigit (capital : Bool) (value : Nat) : UInt8 :=
  UInt8.ofNat (if value < 10 then 0x30 + value else (if capital then 0x41 else 0x61) + (value - 10))

/-- The escape of a byte, with two digits. -/
def hexEscape (capital : Bool) (byte : UInt8) : List UInt8 :=
  [backslash, 0x78, hexDigit capital (byte.toNat / 16), hexDigit capital (byte.toNat % 16)]

/-- The escapes of a sequence of bytes. -/
def hexEscapes (capital : Bool) (bytes : List UInt8) : List UInt8 :=
  bytes.flatMap (hexEscape capital)

theorem hexDigit_spec : ∀ capital : Bool, ∀ value < 16,
    isxdigit (hexDigit capital value) = true ∧ hexValue (hexDigit capital value) = value ∧
      hexDigit capital value ≠ 0 := by
  decide

theorem expandFirst_hexEscape (descr : String) (capital : Bool) (byte : UInt8) (text : List UInt8) :
    expandFirst descr (hexEscape capital byte ++ text) = .ok ([byte], text) := by
  have small := byte.toNat_lt
  obtain ⟨isHigh, high, -⟩ := hexDigit_spec capital (byte.toNat / 16) (by omega)
  obtain ⟨isLow, low, -⟩ := hexDigit_spec capital (byte.toNat % 16) (by omega)
  have value : byte.toNat / 16 * 16 + byte.toNat % 16 = byte.toNat := by omega
  show expandEscape descr (0x78 :: hexDigit capital _ :: hexDigit capital _ :: text) = _
  have plain : plainEscapes.lookup 0x78 = none := by decide
  simp only [expandEscape, plain, if_true, List.take_succ_cons, List.take_zero,
    List.takeWhile_cons, isHigh, isLow, List.takeWhile_nil]
  rw [if_neg (List.cons_ne_nil _ _)]
  simp only [digitsValue, List.foldl_cons, List.foldl_nil, high, low, List.length_cons,
    List.length_nil, List.drop_succ_cons, List.drop_zero, Nat.zero_mul, Nat.zero_add, value,
    UInt8.ofNat_toNat]

theorem expandFrom_hexEscapes (descr : String) (capital : Bool) (bytes : List UInt8) {fuel : Nat}
    (enough : bytes.length < fuel) :
    expandFrom descr fuel (hexEscapes capital bytes) = .ok bytes := by
  induction bytes generalizing fuel with
  | nil =>
    obtain ⟨fuel, rfl⟩ := exists_round enough
    rfl
  | cons byte bytes inductionHypothesis =>
    obtain ⟨fuel, rfl⟩ := exists_round enough
    have rest := inductionHypothesis (Nat.lt_of_succ_lt_succ enough)
    rw [hexEscapes, List.flatMap_cons, expandFrom, if_neg (by simp [hexEscape]),
      expandFirst_hexEscape, ok_bind]
    dsimp only
    rw [← hexEscapes, rest]
    rfl

theorem length_le_hexEscapes (capital : Bool) (bytes : List UInt8) :
    bytes.length ≤ (hexEscapes capital bytes).length := by
  induction bytes with
  | nil => exact Nat.le_refl _
  | cons byte bytes inductionHypothesis =>
    rw [hexEscapes, List.flatMap_cons, ← hexEscapes, List.length_append, List.length_cons]
    simp only [hexEscape, List.length_cons, List.length_nil]
    omega

theorem hexEscapes_noNul (capital : Bool) (bytes : List UInt8) : 0 ∉ hexEscapes capital bytes := by
  intro isMember
  obtain ⟨byte, -, isMember⟩ := List.mem_flatMap.mp isMember
  have small := byte.toNat_lt
  obtain ⟨-, -, high⟩ := hexDigit_spec capital (byte.toNat / 16) (by omega)
  obtain ⟨-, -, low⟩ := hexDigit_spec capital (byte.toNat % 16) (by omega)
  simp only [hexEscape, List.mem_cons, List.not_mem_nil, or_false] at isMember
  rcases isMember with isZero | isZero | isZero | isZero
  · exact absurd isZero (by decide)
  · exact absurd isZero (by decide)
  · exact high isZero.symm
  · exact low isZero.symm

/-- `parseEscapes` expands in place what the expander makes of a copy. It fails with a message, as
the expander does, or leaves the expansion in the buffer, never longer than the string. In every
round the text still to be read is untouched. Bytes that are all written as hexadecimal escapes
come back as they are. -/
theorem parseEscapes_inPlace (descr : String) {content : List UInt8} (noNul : 0 ∉ content) :
    ((∃ failure, expand descr content = .error failure ∧ failure.IsFatal ∧
        parseEscapes (content ++ [0]) descr = .error failure) ∨
      ∃ bytes behind, expand descr content = .ok bytes ∧ bytes.length ≤ content.length ∧
        parseEscapes (content ++ [0]) descr = .ok (bytes.length, bytes ++ 0 :: behind)) ∧
    (∀ state, EscapeReaches descr content state →
      state.writePosition ≤ state.readPosition ∧ state.readPosition ≤ content.length ∧
      state.string.drop state.readPosition = (content ++ [0]).drop state.readPosition) ∧
    ∀ capital bytes, ∃ behind, parseEscapes (hexEscapes capital bytes ++ [0]) descr =
      .ok (bytes.length, bytes ++ 0 :: behind) := by
  refine ⟨parseEscapes_eq descr noNul, fun state reaches => ?_, fun capital bytes => ?_⟩
  · obtain ⟨out, rest, halfway⟩ := reaches.halfway
    obtain ⟨gap, isString, isRead⟩ := halfway.string
    obtain ⟨before, isContent, isBefore⟩ := halfway.unread
    refine ⟨?_, ?_, ?_⟩
    · rw [halfway.writePosition, isRead]
      exact Nat.le_add_right _ _
    · rw [isContent, List.length_append, isBefore]
      exact Nat.le_add_right _ _
    · rw [isString, isContent, List.append_assoc before, ← isBefore, List.drop_left,
        isBefore, isRead, ← List.length_append, List.drop_left]
  · have expands : expand descr (hexEscapes capital bytes) = .ok bytes :=
      expandFrom_hexEscapes descr capital bytes
        (Nat.lt_succ_of_le (length_le_hexEscapes capital bytes))
    rcases parseEscapes_eq descr (hexEscapes_noNul capital bytes) with
      ⟨failure, fails, -⟩ | ⟨bytes', behind, expands', -, parses⟩
    · rw [expands] at fails
      contradiction
    · rw [expands] at expands'
      cases expands'
      exact ⟨behind, parses⟩

theorem parseEscapes_inPlace_tab :
    ∃ behind, parseEscapes ([0x61, backslash, 0x74] ++ [0]) "delimiters" =
      .ok (2, [0x61, 0x09] ++ 0 :: behind) := by
  have expands : expand "delimiters" [0x61, backslash, 0x74] = .ok [0x61, 0x09] := rfl
  rcases (@parseEscapes_inPlace "delimiters" [0x61, backslash, 0x74] (by decide)).1 with
    ⟨failure, fails, -⟩ | ⟨bytes, behind, expands', -, parses⟩
  · rw [expands] at fails
    contradiction
  · rw [expands] at expands'
    cases expands'
    exact ⟨behind, parses⟩

end Dwdiff
