/-
This file models diffseq.h: the search for a midpoint of an edit script (diag)
and the divide and conquer over it (compareseq), with OFFSET as an unbounded
integer and every vector access checked. An access outside a vector, a read of
a cell that was never written and a loop that does not end all answer `none`.
-/

import Dwdiff.Library.Loop
import Dwdiff.Library.Cells
import Mathlib.Algebra.Group.Int.Defs
import Mathlib.Algebra.Group.Nat.Defs

namespace Dwdiff.Diff

/-- Snakes bigger than this are considered "big". -/
def snakeLimit : Int := 20

/-- OFFSET_MAX, the largest value of the type lin. -/
def offsetMax : Int := 2 ^ 63 - 1

/-- The fields of struct context that the comparison never writes. -/
structure Context where
  xvec : Cells Nat
  yvec : Cells Nat
  heuristic : Bool
  tooExpensive : Int

/-- The vectors fdiag and bdiag, indexed by diagonal. -/
structure Diagonals where
  fdiag : Cells (Option Int)
  bdiag : Cells (Option Int)

structure Partition where
  xmid : Int
  ymid : Int
  loMinimal : Bool
  hiMinimal : Bool
deriving DecidableEq, Repr

/-- The portion of the two vectors that one call works on. -/
structure Box where
  xoff : Int
  xlim : Int
  yoff : Int
  ylim : Int
deriving DecidableEq, Repr

namespace Box

variable (box : Box)

def dmin : Int := box.xoff - box.ylim
def dmax : Int := box.xlim - box.yoff
def fmid : Int := box.xoff - box.yoff
def bmid : Int := box.xlim - box.ylim

/-- Whether the far corner is on an odd diagonal with respect to the near one. -/
def odd : Bool := (box.fmid - box.bmid) % 2 != 0

def size : Nat := (box.xlim - box.xoff + (box.ylim - box.yoff)).toNat

end Box

variable (context : Context)

/-- XREF_YREF_EQUAL. -/
def Context.equal (x y : Int) : Option Bool := do
  let first ← context.xvec.get x
  let second ← context.yvec.get y
  return first == second

/-- Follows the diagonal down from `x0`; `y` is always `x - d`. -/
def slideDown (xlim ylim d x0 : Int) : Option Int :=
  Loop.run (fun x =>
    if x < xlim ∧ x - d < ylim then
      (context.equal x (x - d)).map fun equal => if equal then .inl (x + 1) else .inr x
    else some (.inr x)) ((xlim - x0).toNat + 1) x0

/-- Follows the diagonal up from `x0`. -/
def slideUp (xoff yoff d x0 : Int) : Option Int :=
  Loop.run (fun x =>
    if xoff < x ∧ yoff < x - d then
      (context.equal (x - 1) (x - d - 1)).map fun equal => if equal then .inl (x - 1) else .inr x
    else some (.inr x)) ((x0 - xoff).toNat + 1) x0

/-! ### One step of each search -/

/-- Moves the lower limit of a search: the range of diagonals grows by one, with a sentinel
beyond it, or shrinks at the edge of the box. -/
def lowerLimit (vector : Cells (Option Int)) (least sentinel limit : Int) :
    Option (Int × Cells (Option Int)) :=
  if limit > least then
    (vector.store (limit - 2) sentinel).map fun vector => (limit - 1, vector)
  else some (limit + 1, vector)

def upperLimit (vector : Cells (Option Int)) (greatest sentinel limit : Int) :
    Option (Int × Cells (Option Int)) :=
  if limit < greatest then
    (vector.store (limit + 2) sentinel).map fun vector => (limit + 1, vector)
  else some (limit - 1, vector)

/-- What a sweep over the diagonals leaves: the vector, whether some snake was big, and the
point where the two searches met, if they did. -/
structure Swept where
  vector : Cells (Option Int)
  bigSnake : Bool
  met : Option (Int × Int)

/-- Compares with the other search on this diagonal, when it is in that search's range. -/
def meets (check : Bool) (other : Cells (Option Int)) (least greatest d : Int)
    (overlap : Int → Bool) : Option Bool :=
  if check ∧ least ≤ d ∧ d ≤ greatest then (other.load d).map overlap else some false

variable (box : Box)

/-- One diagonal of the top-down search. -/
def forwardStep (bd : Cells (Option Int)) (bmin bmax fmin : Int) :
    Int × Cells (Option Int) × Bool → Option ((Int × Cells (Option Int) × Bool) ⊕ Swept)
  | (d, fd, bigSnake) =>
    if d ≥ fmin then do
      let tlo ← fd.load (d - 1)
      let thi ← fd.load (d + 1)
      let x0 := if tlo < thi then thi else tlo + 1
      let x ← slideDown context box.xlim box.ylim d x0
      let bigSnake := bigSnake || x - x0 > snakeLimit
      let fd ← fd.store d x
      let met ← meets box.odd bd bmin bmax d fun other => other ≤ x
      return if met then .inr ⟨fd, bigSnake, some (x, x - d)⟩ else .inl (d - 2, fd, bigSnake)
    else return .inr ⟨fd, bigSnake, none⟩

/-- One diagonal of the bottom-up search. -/
def backwardStep (fd : Cells (Option Int)) (fmin fmax bmin : Int) :
    Int × Cells (Option Int) × Bool → Option ((Int × Cells (Option Int) × Bool) ⊕ Swept)
  | (d, bd, bigSnake) =>
    if d ≥ bmin then do
      let tlo ← bd.load (d - 1)
      let thi ← bd.load (d + 1)
      let x0 := if tlo < thi then tlo else thi - 1
      let x ← slideUp context box.xoff box.yoff d x0
      let bigSnake := bigSnake || x0 - x > snakeLimit
      let bd ← bd.store d x
      let met ← meets (!box.odd) fd fmin fmax d fun other => x ≤ other
      return if met then .inr ⟨bd, bigSnake, some (x, x - d)⟩ else .inl (d - 2, bd, bigSnake)
    else return .inr ⟨bd, bigSnake, none⟩

/-- The number of rounds of a loop over the diagonals from `greatest` down to `least`. -/
def rounds (least greatest : Int) : Nat := (greatest - least).toNat + 2

def forwardSweep (bd : Cells (Option Int)) (bmin bmax fmin fmax : Int) (fd : Cells (Option Int)) :
    Option Swept :=
  Loop.run (forwardStep context box bd bmin bmax fmin) (rounds fmin fmax) (fmax, fd, false)

def backwardSweep (fd : Cells (Option Int)) (fmin fmax bmin bmax : Int) (bd : Cells (Option Int))
    (bigSnake : Bool) : Option Swept :=
  Loop.run (backwardStep context box fd fmin fmax bmin) (rounds bmin bmax) (bmax, bd, bigSnake)

/-! ### The heuristics -/

/-- Whether the probes from `first` to `last` all find equal elements. -/
def significant (probe : Int → Option Bool) (first last : Int) : Option Bool :=
  Loop.run (fun k => (probe k).map fun equal =>
    if equal then (if k = last then .inr true else .inl (k + 1)) else .inr false)
    ((last - first).toNat + 1) first

/-- One diagonal of the search for one that has made lots of progress and ends with a
significant snake: the best progress so far and its point. -/
def bestSnakeStep (vector : Cells (Option Int)) (least middle c : Int)
    (progress : Int → Int → Int) (inner : Int → Int → Bool)
    (snake : Int → Int → Option Bool) :
    Int × Int × Int × Int → Option ((Int × Int × Int × Int) ⊕ (Int × Int × Int))
  | (d, best, xmid, ymid) =>
    if d ≥ least then do
      let dd := d - middle
      let x ← vector.load d
      let y := x - d
      let v := progress x dd
      if v > 12 * (c + (if dd < 0 then -dd else dd)) ∧ v > best ∧ inner x y then
        (snake x y).map fun found =>
          if found then .inl (d - 2, v, x, y) else .inl (d - 2, best, xmid, ymid)
      else return .inl (d - 2, best, xmid, ymid)
    else return .inr (best, xmid, ymid)

def bestSnake (vector : Cells (Option Int)) (least greatest middle c : Int)
    (progress : Int → Int → Int) (inner : Int → Int → Bool)
    (snake : Int → Int → Option Bool) : Option (Int × Int × Int) :=
  Loop.run (bestSnakeStep vector least middle c progress inner snake) (rounds least greatest)
    (greatest, 0, 0, 0)

/-- The diagonal of the top-down search that has made the most progress. -/
def forwardBest (fd : Cells (Option Int)) (fmin fmax c : Int) : Option (Int × Int × Int) :=
  bestSnake fd fmin fmax box.fmid c (fun x dd => (x - box.xoff) * 2 - dd)
    (fun x y => box.xoff + snakeLimit ≤ x && x < box.xlim &&
      (box.yoff + snakeLimit ≤ y && y < box.ylim))
    (fun x y => significant (fun k => context.equal (x - k) (y - k)) 1 snakeLimit)

def backwardBest (bd : Cells (Option Int)) (bmin bmax c : Int) : Option (Int × Int × Int) :=
  bestSnake bd bmin bmax box.bmid c (fun x dd => (box.xlim - x) * 2 + dd)
    (fun x y => box.xoff < x && x ≤ box.xlim - snakeLimit &&
      (box.yoff < y && y ≤ box.ylim - snakeLimit))
    (fun x y => significant (fun k => context.equal (x + k) (y + k)) 0 (snakeLimit - 1))

/-- The extreme of `x + y` over the diagonals, with every point clamped to the box. -/
def extreme (vector : Cells (Option Int)) (least greatest start : Int)
    (clamp : Int → Int → Int × Int) (better : Int → Int → Bool) : Option (Int × Int) :=
  Loop.run (fun (d, xybest, xbest) =>
    if d ≥ least then
      (vector.load d).map fun reached =>
        let (x, y) := clamp d reached
        if better (x + y) xybest then .inl (d - 2, x + y, x) else .inl (d - 2, xybest, xbest)
    else some (.inr (xybest, xbest))) (rounds least greatest) (greatest, start, 0)

def forwardClamp (d reached : Int) : Int × Int :=
  let x := if reached ≤ box.xlim then reached else box.xlim
  let y := x - d
  if box.ylim < y then (box.ylim + d, box.ylim) else (x, y)

def backwardClamp (d reached : Int) : Int × Int :=
  let x := if box.xoff ≥ reached then box.xoff else reached
  let y := x - d
  if y < box.yoff then (box.yoff + d, box.yoff) else (x, y)

/-- The two limits of each search, its vector, and the cost. -/
structure Search where
  fd : Cells (Option Int)
  bd : Cells (Option Int)
  fmin : Int
  fmax : Int
  bmin : Int
  bmax : Int
  c : Int

/-- Reports a diagonal that has made lots of progress compared with the edit distance. -/
def heuristicPartition (search : Search) :
    Option (Option Partition) := do
  let (best, xmid, ymid) ← forwardBest context box search.fd search.fmin search.fmax search.c
  if best > 0 then return some ⟨xmid, ymid, true, false⟩
  else
    let (best, xmid, ymid) ← backwardBest context box search.bd search.bmin search.bmax search.c
    return if best > 0 then some ⟨xmid, ymid, false, true⟩ else none

/-- The heuristic is only tried occasionally. -/
def tryHeuristic (bigSnake : Bool) (search : Search) : Option (Option Partition) :=
  if 200 < search.c ∧ bigSnake ∧ context.heuristic then heuristicPartition context box search
  else some none

/-- Gives up, and reports halfway between the best results so far. -/
def giveUp (search : Search) : Option Partition := do
  let (fxybest, fxbest) ←
    extreme search.fd search.fmin search.fmax (-1) (forwardClamp box) fun sum best => best < sum
  let (bxybest, bxbest) ←
    extreme search.bd search.bmin search.bmax offsetMax (backwardClamp box) fun sum best =>
      sum < best
  return if box.xlim + box.ylim - bxybest < fxybest - (box.xoff + box.yoff) then
    ⟨fxbest, fxybest - fxbest, true, false⟩
  else ⟨bxbest, bxybest - bxbest, false, true⟩

/-- What follows a round in which the searches did not meet. -/
def diagGiveUp (findMinimal bigSnake : Bool) (search : Search) :
    Option (Search ⊕ (Partition × Diagonals)) :=
  let diagonals : Diagonals := ⟨search.fd, search.bd⟩
  let next := { search with c := search.c + 1 }
  if findMinimal then some (.inl next)
  else do
    let found ← tryHeuristic context box bigSnake search
    match found with
    | some part => return .inr (part, diagonals)
    | none =>
      if search.c ≥ context.tooExpensive then
        (giveUp box search).map fun part => .inr (part, diagonals)
      else return .inl next

/-- The second half of a round: the bottom-up search. -/
def diagBackward (findMinimal bigSnake : Bool) (search : Search) :
    Option (Search ⊕ (Partition × Diagonals)) := do
  let (bmin, bd) ← lowerLimit search.bd box.dmin offsetMax search.bmin
  let (bmax, bd) ← upperLimit bd box.dmax offsetMax search.bmax
  let swept ← backwardSweep context box search.fd search.fmin search.fmax bmin bmax bd bigSnake
  match swept.met with
  | some (x, y) => return .inr (⟨x, y, true, true⟩, ⟨search.fd, swept.vector⟩)
  | none =>
    diagGiveUp context box findMinimal swept.bigSnake
      { search with bd := swept.vector, bmin, bmax }

/-- One round of diag: both searches are extended by an edit step in each diagonal. -/
def diagRound (findMinimal : Bool) (search : Search) :
    Option (Search ⊕ (Partition × Diagonals)) := do
  let (fmin, fd) ← lowerLimit search.fd box.dmin (-1) search.fmin
  let (fmax, fd) ← upperLimit fd box.dmax (-1) search.fmax
  let swept ← forwardSweep context box search.bd search.bmin search.bmax fmin fmax fd
  match swept.met with
  | some (x, y) => return .inr (⟨x, y, true, true⟩, ⟨swept.vector, search.bd⟩)
  | none =>
    diagBackward context box findMinimal swept.bigSnake
      { search with fd := swept.vector, fmin, fmax }

/-- Finds the midpoint of the shortest edit script for a portion of the two vectors, or a
point that a heuristic reports. -/
def diag (findMinimal : Bool) (diagonals : Diagonals) :
    Option (Partition × Diagonals) := do
  let fd ← diagonals.fdiag.store box.fmid box.xoff
  let bd ← diagonals.bdiag.store box.bmid box.xlim
  Loop.run (diagRound context box findMinimal) (box.size + 1)
    ⟨fd, bd, box.fmid, box.fmid, box.bmid, box.bmid, 1⟩

/-! ### Divide and conquer -/

/-- The vectors of both files that turn a place among the compared elements into a place of
the file, and the vectors being compared. -/
structure Comparison where
  context : Context
  realindexes0 : Cells Int
  realindexes1 : Cells Int

/-- What compareseq writes: the flags of both files and the diagonal vectors. Every partition
that was used is recorded as well, the latest first; the program does not keep these. -/
structure Progress where
  changed0 : Cells Bool
  changed1 : Cells Bool
  diagonals : Diagonals
  splits : List Partition

/-- NOTE_DELETE or NOTE_INSERT. -/
def noteOne (realindexes : Cells Int) (place : Int) (changed : Cells Bool) :
    Option (Cells Bool) := do
  let real ← realindexes.get place
  changed.set real true

/-- Every place from `first` up to `last` is noted. -/
def note (realindexes : Cells Int) (first last : Int) (changed : Cells Bool) :
    Option (Cells Bool) :=
  Loop.upTo (fun index => noteOne realindexes (first + index)) (last - first).toNat 0 changed

/-- Compares two subsequences and flags what differs. The first argument bounds the depth. -/
def compareseq (comparison : Comparison) :
    (depth : Nat) → Box → (findMinimal : Bool) → Progress → Option Progress
  | 0, _, _, _ => none
  | depth + 1, box, findMinimal, progress => do
    let xoff ← slideDown comparison.context box.xlim box.ylim box.fmid box.xoff
    let yoff := xoff - box.fmid
    let xlim ← slideUp comparison.context xoff yoff box.bmid box.xlim
    let ylim := xlim - box.bmid
    if xoff = xlim then
      let changed1 ← note comparison.realindexes1 yoff ylim progress.changed1
      return { progress with changed1 }
    else if yoff = ylim then
      let changed0 ← note comparison.realindexes0 xoff xlim progress.changed0
      return { progress with changed0 }
    else
      let (part, diagonals) ←
        diag comparison.context ⟨xoff, xlim, yoff, ylim⟩ findMinimal progress.diagonals
      let progress ← compareseq comparison depth ⟨xoff, part.xmid, yoff, part.ymid⟩
        part.loMinimal { progress with diagonals, splits := part :: progress.splits }
      compareseq comparison depth ⟨part.xmid, xlim, part.ymid, ylim⟩ part.hiMinimal progress

end Dwdiff.Diff
