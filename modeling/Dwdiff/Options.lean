/-
This file holds what a run is given: the options, as far as the modelled
functions read them, and what the C library and ICU say about characters.
-/

import Dwdiff.Stream

namespace Dwdiff

/-- `char bitmap[BITMASK_SIZE]`, one bit for each byte. -/
abbrev Bitmap := Vector UInt8 32

/-- `TEST_BIT`. -/
def testBit (bitmap : Bitmap) (byte : UInt8) : Bool :=
  (bitmap.get ⟨byte.toNat / 8, by have := byte.toNat_lt; omega⟩).toNat.testBit (byte.toNat % 8)

/-- What the C library and ICU say about characters. -/
structure Locale where
  /-- `tolower`, on bytes. -/
  toLower : UInt8 → UInt8
  /-- `u_getIntPropertyValue(c, UCHAR_GRAPHEME_CLUSTER_BREAK)`. -/
  graphemeClusterBreak : Int → Nat
  /-- `unorm2_normalize` with the normalizer in `option.decomposition`. -/
  normalize : List UInt16 → List UInt16
  /-- `u_strFoldCase`. -/
  foldCase : List UInt16 → List UInt16
  /-- `U_GET_GC_MASK`. -/
  generalCategoryMask : Nat → Nat
  /-- `u_isUWhiteSpace`. -/
  isUWhiteSpace : Nat → Bool

/-- The fields of `option_t` that the modelled functions read, together with `UTF8Mode` and the
two globals that the option `-A` sets. The pairs of a text and its length are one list. -/
structure Options where
  delStart : List UInt8
  delStop : List UInt8
  addStart : List UInt8
  addStop : List UInt8
  delColor : List UInt8
  addColor : List UInt8
  delimiters : Bitmap
  whitespace : Bitmap
  delimiterList : List (List UInt16)
  whitespaceList : List (List UInt16)
  punctuationMask : Nat
  whitespaceSet : Bool
  printDeleted : Bool
  printAdded : Bool
  printCommon : Bool
  needMarkers : Bool
  needStartStop : Bool
  printer : Bool
  less : Bool
  ignoreCase : Bool
  colorMode : Bool
  lineNumbers : Nat
  matchContext : Nat
  aggregateChanges : Bool
  paraDelim : Bool
  paraDelimMarker : List UInt8
  wdiffOutput : Bool
  repeatMarkers : Bool
  utf8Mode : Bool
  minimal : Bool
  speedLargeFiles : Bool

/-- The C locale, in which only ASCII characters have properties. -/
def cLocale : Locale where
  toLower := fun byte => if 0x41 ≤ byte ∧ byte ≤ 0x5A then byte + 0x20 else byte
  graphemeClusterBreak := fun c =>
    if c = 13 then 2 else if c = 10 then 5 else if (0 ≤ c ∧ c < 32) ∨ c = 127 then 1 else 0
  normalize := id
  foldCase := List.map fun unit => if 0x41 ≤ unit ∧ unit ≤ 0x5A then unit + 0x20 else unit
  generalCategoryMask := fun _ => 0
  isUWhiteSpace := fun c => (9 ≤ c ∧ c ≤ 13) ∨ c = 32

/-- The set of the comma. -/
def commaSet : Vector UInt8 32 := (Vector.replicate 32 0).set 5 0x10

/-- The set of the blank. -/
def blankSet : Vector UInt8 32 := (Vector.replicate 32 0).set 4 0x01

/-- The options of a run without arguments in the C locale: what `initializeOptions`,
`completeDefaults` and `postProcessOptionsSC` leave. -/
def defaultOptions : Options where
  delStart := [0x5B, 0x2D]
  delStop := [0x2D, 0x5D]
  addStart := [0x7B, 0x2B]
  addStop := [0x2B, 0x7D]
  delColor := []
  addColor := []
  delimiters := Vector.replicate 32 0
  whitespace := ((Vector.replicate 32 0).set 1 0x3E).set 4 0x01
  delimiterList := []
  whitespaceList := []
  punctuationMask := 0
  whitespaceSet := false
  printDeleted := true
  printAdded := true
  printCommon := true
  needMarkers := false
  needStartStop := true
  printer := false
  less := false
  ignoreCase := false
  colorMode := false
  lineNumbers := 0
  matchContext := 2
  aggregateChanges := false
  paraDelim := false
  paraDelimMarker := [0x3C, 0x2D, 0x2D, 0x3E]
  wdiffOutput := false
  repeatMarkers := false
  utf8Mode := false
  minimal := false
  speedLargeFiles := false

end Dwdiff
