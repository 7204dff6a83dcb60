/-
This file models analyze.c: which elements are left out of the comparison
(discard_confusing_lines), how the flags of the comparison are moved to join
changes (shift_boundaries), how they become an edit script (build_script), and
the whole comparison of two files (diff_2_files). The equivalence codes of a
file are a list; the flag vectors have an extra cell, always clear, at each end.
-/

import Dwdiff.Diff.DiffSeq

namespace Dwdiff.Diff

/-- An element of the edit script. -/
structure Change where
  line0 : Int
  line1 : Int
  deleted : Int
  inserted : Int
deriving DecidableEq, Repr

/-! ### Elements that are left out -/

/-- The values 0, 1 and 2 of the discard table. -/
inductive Mark
  | keep
  | discard
  | provisional
deriving DecidableEq, Repr

/-- How many elements of the file fall in each equivalence class. -/
def countEquivs (equivMax : Nat) (equivs : List Nat) : Option (Cells Nat) :=
  equivs.foldlM (fun counts (code : Nat) => do
    let count ← counts.get code
    counts.set code (count + 1)) (Cells.filled 0 (equivMax - 1) 0)

/-- Doubles a number as long as dividing the other by four leaves something. The first
argument bounds the number of rounds. -/
def doubled : (fuel tem many : Nat) → Nat
  | 0, _, many => many
  | fuel + 1, tem, many => if 0 < tem / 4 then doubled fuel (tem / 4) (many * 2) else many

/-- The threshold for provisionally discardable elements: about the square root of the length
of the file. -/
def manyMatches (length : Nat) : Nat := doubled (length / 64) (length / 64) 5

/-- An element that matches nothing is discarded, one that matches many provisionally. -/
def markOf (counts : Cells Nat) (many code : Nat) : Option Mark :=
  if code = 0 then some .keep
  else (counts.get code).map fun nmatch =>
    if nmatch = 0 then .discard else if nmatch > many then .provisional else .keep

/-- The end of the run of discardable elements from `i`, and how many are provisional. -/
def runEnd (discards : Cells Mark) (stop i : Int) : Option (Int × Int) :=
  Loop.run (fun (j, provisional) =>
    if j < stop then
      (discards.get j).map fun
        | .keep => .inr (j, provisional)
        | .discard => .inl (j + 1, provisional)
        | .provisional => .inl (j + 1, provisional + 1)
    else some (.inr (j, provisional))) ((stop - i).toNat + 1) (i, 0)

/-- Cancels provisional discards at the end of the run, and shrinks it. -/
def trimRun (i : Int) (discards : Cells Mark) (j provisional : Int) :
    Option (Cells Mark × Int × Int) :=
  Loop.run (fun (discards, j, provisional) =>
    if j > i then do
      if (← discards.get (j - 1)) = .provisional then
        return .inl (← discards.set (j - 1) .keep, j - 1, provisional - 1)
      else return .inr (discards, j, provisional)
    else some (.inr (discards, j, provisional))) ((j - i).toNat + 1) (discards, j, provisional)

/-- Cancels all provisional discards of the run. -/
def cancelAll (i : Int) (discards : Cells Mark) (j : Int) : Option (Cells Mark) :=
  Loop.run (fun (discards, j) =>
    if j > i then do
      if (← discards.get (j - 1)) = .provisional then
        return .inl (← discards.set (j - 1) .keep, j - 1)
      else return .inl (discards, j - 1)
    else some (.inr discards)) ((j - i).toNat + 1) (discards, j)

/-- How many provisionals in a row are too many in a run of this length. -/
def minimumRun (length : Int) : Int :=
  doubled (length.toNat / 4) (length.toNat / 4) 1 + 1

/-- One element of the scan for subruns of provisionals; at the `minimum`-th of them the scan
backs up to the start of the subrun, to cancel it all. -/
def cancelSubrunsStep (i length minimum : Int) :
    Cells Mark × Int × Int → Option ((Cells Mark × Int × Int) ⊕ Cells Mark)
  | (discards, j, consec) =>
    if j < length then do
      if (← discards.get (i + j)) ≠ .provisional then return .inl (discards, j + 1, 0)
      else if minimum = consec + 1 then
        return .inl (discards, j - (consec + 1) + 1, consec + 1)
      else if minimum < consec + 1 then
        return .inl (← discards.set (i + j) .keep, j + 1, consec + 1)
      else return .inl (discards, j + 1, consec + 1)
    else some (.inr discards)

def cancelSubruns (i length minimum : Int) (discards : Cells Mark) : Option (Cells Mark) :=
  Loop.run (cancelSubrunsStep i length minimum) (((length + 1) * (minimum + 2)).toNat + 1)
    (discards, 0, 0)

/-- One element of the scan from one end of the run, until there are three nonprovisionals in
a row or a nonprovisional at least eight elements in. -/
def cancelEndStep (place : Int → Int) (length : Int) :
    Cells Mark × Int × Int → Option ((Cells Mark × Int × Int) ⊕ Cells Mark)
  | (discards, j, consec) =>
    if j < length then do
      let mark ← discards.get (place j)
      if j ≥ 8 ∧ mark = .discard then return .inr discards
      else
        let discards ← if mark = .provisional then discards.set (place j) .keep else some discards
        let consec := if mark = .discard then consec + 1 else 0
        return if consec = 3 then .inr discards else .inl (discards, j + 1, consec)
    else some (.inr discards)

def cancelEnd (place : Int → Int) (length : Int) (discards : Cells Mark) : Option (Cells Mark) :=
  Loop.run (cancelEndStep place length) (length.toNat + 1) (discards, 0, 0)

/-- A run of discardables from the nonprovisional one at `i`: the table afterwards, and the
last index that has been dealt with. -/
def handleRun (stop i : Int) (discards : Cells Mark) : Option (Cells Mark × Int) := do
  let (j, provisional) ← runEnd discards stop i
  let (discards, j, provisional) ← trimRun i discards j provisional
  let length := j - i
  if provisional * 4 > length then
    let discards ← cancelAll i discards j
    return (discards, i)
  else
    let discards ← cancelSubruns i length (minimumRun length) discards
    let discards ← cancelEnd (fun j => i + j) length discards
    let last := i + length - 1
    let discards ← cancelEnd (fun j => last - j) length discards
    return (discards, last)

/-- Provisional discards stay only in a run of discardables that starts and ends with
nonprovisionals. -/
def cancelProvisional (stop : Int) (discards : Cells Mark) : Option (Cells Mark) :=
  Loop.run (fun (discards, i) =>
    if i < stop then
      (discards.get i).bind fun
        | .provisional => (discards.set i .keep).map fun discards => .inl (discards, i + 1)
        | .keep => some (.inl (discards, i + 1))
        | .discard => (handleRun stop i discards).map fun (discards, last) =>
          .inl (discards, last + 1)
    else some (.inr discards)) (stop.toNat + 1) (discards, 0)

/-- What is left of a file: the codes that are compared, where they stand in the file, and the
flags of the others. -/
structure Compacted where
  undiscarded : List Nat
  realindexes : List Int
  changed : Cells Bool

/-- One element is taken over into the comparison, or flagged. -/
def squeezeStep (minimal : Bool) (discards : Cells Mark) (equivs : List Nat) (i : Nat)
    (file : Compacted) : Option Compacted := do
  let code ← equivs[i]?
  if minimal ∨ (← discards.get i) = .keep then
    return { file with undiscarded := file.undiscarded ++ [code],
                       realindexes := file.realindexes ++ [(i : Int)] }
  else return { file with changed := ← file.changed.set i true }

/-- Actually discards the marked elements. -/
def squeeze (minimal : Bool) (discards : Cells Mark) (equivs : List Nat) (changed : Cells Bool) :
    Option Compacted :=
  Loop.upTo (squeezeStep minimal discards equivs) equivs.length 0 ⟨[], [], changed⟩

/-- The discard table of one file, against the counts of the other. -/
def discardTable (counts : Cells Nat) (equivs : List Nat) : Option (Cells Mark) := do
  let marks ← equivs.mapM (markOf counts (manyMatches equivs.length))
  cancelProvisional equivs.length (Cells.ofList marks .keep)

/-- Flags that are clear, with a sentinel at each end. -/
def clearFlags (length : Nat) : Cells Bool := Cells.filled (-1) length false

def discardConfusingLines (minimal : Bool) (equivMax : Nat) (equivs0 equivs1 : List Nat) :
    Option (Compacted × Compacted) := do
  let counts0 ← countEquivs equivMax equivs0
  let counts1 ← countEquivs equivMax equivs1
  let discards0 ← discardTable counts1 equivs0
  let discards1 ← discardTable counts0 equivs1
  let file0 ← squeeze minimal discards0 equivs0 (clearFlags equivs0.length)
  let file1 ← squeeze minimal discards1 equivs1 (clearFlags equivs1.length)
  return (file0, file1)

/-! ### Moving the boundaries of changes -/

/-- The first clear cell at or after `j`. -/
def nextClear (flags : Cells Bool) (j : Int) : Option Int :=
  Loop.run (fun j => (flags.get j).map fun flag => if flag then .inl (j + 1) else .inr j)
    ((flags.upper - j).toNat + 1) j

/-- The last clear cell at or before `j`. -/
def previousClear (flags : Cells Bool) (j : Int) : Option Int :=
  Loop.run (fun j => (flags.get j).map fun flag => if flag then .inl (j - 1) else .inr j)
    ((j - flags.lower).toNat + 1) j

/-- Scans forwards to the beginning of another run of changes, and keeps track of the
corresponding point in the other file. -/
def nextRun (changed other : Cells Bool) (stop i j : Int) : Option (Int × Int) :=
  Loop.run (fun (i, j) =>
    if i < stop then do
      if ← changed.get i then return .inr (i, j)
      else return .inl (i + 1, (← nextClear other j) + 1)
    else some (.inr (i, j))) ((stop - i).toNat + 1) (i, j)

/-- The flags of the file, the run of changes from `start` up to `i`, and the corresponding
point of the other file. -/
structure Shift where
  changed : Cells Bool
  start : Int
  i : Int
  j : Int

/-- Moves the changed region back by one, and merges it with the changes it meets. -/
def stepBack (other : Cells Bool) (shift : Shift) : Option Shift := do
  let changed ← shift.changed.set (shift.start - 1) true
  let changed ← changed.set (shift.i - 1) false
  let start ← previousClear changed (shift.start - 2)
  let j ← previousClear other (shift.j - 1)
  return ⟨changed, start + 1, shift.i - 1, j⟩

/-- Moves the changed region back, so long as the previous unchanged element matches the last
changed one. -/
def moveBack (equivs : Cells Nat) (other : Cells Bool) (shift : Shift) : Option Shift :=
  Loop.run (fun shift =>
    if shift.start ≠ 0 then do
      if (← equivs.get (shift.start - 1)) = (← equivs.get (shift.i - 1)) then
        return .inl (← stepBack other shift)
      else return .inr shift
    else some (.inr shift)) (shift.i.toNat + 1) shift

/-- Moves the changed region forward by one, and merges it; `corresponding` follows when the
other file has changes at the new end. -/
def stepForward (other : Cells Bool) (shift : Shift) (corresponding : Int) :
    Option (Shift × Int) := do
  let changed ← shift.changed.set shift.start false
  let changed ← changed.set shift.i true
  let i ← nextClear changed (shift.i + 1)
  let j ← nextClear other (shift.j + 1)
  return (⟨changed, shift.start + 1, i, j⟩, if j = shift.j + 1 then corresponding else i)

/-- Moves the changed region forward, so long as the first changed element matches the
following unchanged one. -/
def moveForward (equivs : Cells Nat) (other : Cells Bool) (stop : Int) (shift : Shift)
    (corresponding : Int) : Option (Shift × Int) :=
  Loop.run (fun (shift, corresponding) =>
    if shift.i ≠ stop then do
      if (← equivs.get shift.start) = (← equivs.get shift.i) then
        return .inl (← stepForward other shift corresponding)
      else return .inr (shift, corresponding)
    else some (.inr (shift, corresponding))) ((stop - shift.i).toNat + 1) (shift, corresponding)

/-- Moves the region back and forward until the run does not grow any more. -/
def settle (equivs : Cells Nat) (other : Cells Bool) (stop : Int) (shift : Shift) :
    Option (Shift × Int) :=
  Loop.run (fun shift => do
    let back ← moveBack equivs other shift
    let corresponding := if ← other.get (back.j - 1) then back.i else stop
    let (forward, corresponding) ← moveForward equivs other stop back corresponding
    return if shift.i - shift.start = forward.i - forward.start then .inr (forward, corresponding)
      else .inl forward) (stop.toNat + 1) shift

/-- Moves the fully merged run back to a corresponding run in the other file. -/
def realign (other : Cells Bool) (corresponding : Int) (shift : Shift) : Option Shift :=
  Loop.run (fun shift =>
    if corresponding < shift.i then do
      let changed ← shift.changed.set (shift.start - 1) true
      let changed ← changed.set (shift.i - 1) false
      let j ← previousClear other (shift.j - 1)
      return .inl ⟨changed, shift.start - 1, shift.i - 1, j⟩
    else some (.inr shift)) ((shift.i - corresponding).toNat + 1) shift

/-- Deals with the next run of changes: the flags, and where the scan goes on. -/
def shiftRun (equivs : Cells Nat) (other : Cells Bool) (stop : Int) (changed : Cells Bool)
    (start j : Int) : Option Shift := do
  let i ← nextClear changed (start + 1)
  let j ← nextClear other j
  let (shift, corresponding) ← settle equivs other stop ⟨changed, start, i, j⟩
  realign other corresponding shift

/-- shift_boundaries for one of the two files. -/
def shiftBoundaries (equivs : List Nat) (changed other : Cells Bool) : Option (Cells Bool) :=
  Loop.run (fun (changed, i, j) => do
    let (i, j) ← nextRun changed other equivs.length i j
    if i = equivs.length then return .inr changed
    else
      let shift ← shiftRun (Cells.ofList equivs 0) other equivs.length changed i j
      return .inl (shift.changed, shift.i, shift.j)) (equivs.length + 1) (changed, 0, 0)

/-! ### The edit script -/

/-- Scans the flags from the end and conses up the script in forward order. -/
def buildScript (changed0 changed1 : Cells Bool) (length0 length1 : Nat) :
    Option (List Change) :=
  Loop.run (fun (i0, i1, script) =>
    if i0 ≥ 0 ∨ i1 ≥ 0 then do
      if (← changed0.get (i0 - 1)) || (← changed1.get (i1 - 1)) then
        let line0 := (← previousClear changed0 (i0 - 1)) + 1
        let line1 := (← previousClear changed1 (i1 - 1)) + 1
        return .inl (line0 - 1, line1 - 1, ⟨line0, line1, i0 - line0, i1 - line1⟩ :: script)
      else return .inl (i0 - 1, i1 - 1, script)
    else some (.inr script)) (length0 + length1 + 2) ((length0 : Int), (length1 : Int), [])

/-! ### The whole comparison -/

/-- Doubles the bound once for every two bits of the number of diagonals. The first argument
bounds the number of rounds. -/
def expense : (fuel diags tooExpensive : Nat) → Nat
  | 0, _, tooExpensive => tooExpensive
  | fuel + 1, diags, tooExpensive =>
    if diags ≠ 0 then expense fuel (diags / 4) (tooExpensive * 2) else tooExpensive

/-- About the square root of the input size, bounded below by 256. -/
def tooExpensiveFor (diags : Nat) : Nat := max 256 (expense diags diags 1)

/-- The two vectors of diagonals, as they are allocated. -/
def allocateDiagonals (count0 count1 : Nat) : Diagonals :=
  ⟨Cells.uninitialised (-(count1 + 1)) (count0 + 1),
    Cells.uninitialised (-(count1 + 1)) (count0 + 1)⟩

/-- The comparison of what discarding left of the two files. -/
def compareFiles (minimal speedLargeFiles : Bool) (file0 file1 : Compacted) : Option Progress :=
  let count0 := file0.undiscarded.length
  let count1 := file1.undiscarded.length
  compareseq
    ⟨⟨Cells.ofList file0.undiscarded 0, Cells.ofList file1.undiscarded 0, speedLargeFiles,
        tooExpensiveFor (count0 + count1 + 3)⟩,
      Cells.ofList file0.realindexes 0, Cells.ofList file1.realindexes 0⟩
    (count0 + count1 + 1) ⟨0, count0, 0, count1⟩ minimal
    ⟨file0.changed, file1.changed, allocateDiagonals count0 count1, []⟩

/-- The script of a comparison, and the partitions that were used to find it. -/
structure Comparing where
  script : List Change
  splits : List Partition

def diff2Files (minimal speedLargeFiles : Bool) (equivMax : Nat) (equivs0 equivs1 : List Nat) :
    Option Comparing := do
  let (file0, file1) ← discardConfusingLines minimal equivMax equivs0 equivs1
  let compared ← compareFiles minimal speedLargeFiles file0 file1
  let changed0 ← shiftBoundaries equivs0 compared.changed0 compared.changed1
  let changed1 ← shiftBoundaries equivs1 compared.changed1 changed0
  let script ← buildScript changed0 changed1 equivs0.length equivs1.length
  return ⟨script, compared.splits⟩

end Dwdiff.Diff
