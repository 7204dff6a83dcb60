/-
This file says what context-line output is: of all lines, those near a line that
was hit by a change, with a separator where lines are left out. It proves that
the machine of `buffer.c` writes exactly this. The machine looks ahead by holding
back the lines that may turn out to be near; the reference looks at all lines.
-/

import Dwdiff.Buffer
import Dwdiff.Library.Ring

namespace Dwdiff

variable {contextLines : Nat} {active quiet : List Line}

/-! ### The reference -/

/-- A line: its text, with the newline, and whether a character of it is not common. -/
structure Line where
  text : List UInt8
  hit : Bool
  deriving DecidableEq, Repr

/-- Whether a line is hit or stands within so many lines before or after one that is. -/
def isNear (contextLines : Nat) (lines : List Line) (i : Nat) : Bool :=
  lines.zipIdx.any fun (line, j) =>
    line.hit && decide (i ≤ j + contextLines) && decide (j ≤ i + contextLines)

/-- Whether a block of output starts at a line, behind another block and at least one line that
is left out. -/
def startsBlock (contextLines : Nat) (lines : List Line) (i : Nat) : Bool :=
  i != 0 && !isNear contextLines lines (i - 1) &&
    (List.range i).any (isNear contextLines lines)

/-- What is written for a line. -/
def shownLine (contextLines : Nat) (lines : List Line) (i : Nat) (text : List UInt8) :
    List UInt8 :=
  if isNear contextLines lines i then
    (if startsBlock contextLines lines i then separator else []) ++ text
  else []

/-- What is written for all lines. -/
def reference (contextLines : Nat) (lines : List Line) : List UInt8 :=
  lines.zipIdx.flatMap fun (line, i) => shownLine contextLines lines i line.text

/-- The characters of a call, each with whether it hits its line. -/
def Emission.marked : Emission → List (UInt8 × Bool)
  | .addchar c common => [(c, !common)]
  | .writeString string => string.map fun byte => (byte, false)
  | _ => []

/-- The lines of a text, the last of which is not finished. -/
def splitLines : List (UInt8 × Bool) → List Line
  | [] => [⟨[], false⟩]
  | (byte, hit) :: rest =>
    if byte = 10 then ⟨[byte], hit⟩ :: splitLines rest
    else match splitLines rest with
      | [] => [⟨[byte], hit⟩]
      | line :: lines => ⟨byte :: line.text, hit || line.hit⟩ :: lines

section Reference

variable {lines : List Line}

theorem isNear_iff {i : Nat} : isNear contextLines lines i = true ↔
    ∃ j line, lines[j]? = some line ∧ line.hit = true ∧ i ≤ j + contextLines ∧
      j ≤ i + contextLines := by
  simp only [isNear, List.any_eq_true, Prod.exists, List.mem_zipIdx_iff_getElem?,
    Bool.and_eq_true, decide_eq_true_eq, and_assoc]
  exact exists_comm

/-- Lines that are all near are written one after the other. -/
theorem shown_near (segment : List Line) {start : Nat}
    (near : ∀ i, start ≤ i → i < start + segment.length → isNear contextLines lines i = true)
    (filled : segment ≠ []) :
    (segment.zipIdx start).flatMap (fun (line, i) => shownLine contextLines lines i line.text) =
      (if startsBlock contextLines lines start then separator else []) ++
        segment.flatMap Line.text := by
  induction segment generalizing start with
  | nil => contradiction
  | cons line rest inductionHypothesis =>
    have first := near start (Nat.le_refl _) (by simp)
    rw [List.zipIdx_cons, List.flatMap_cons, List.flatMap_cons]
    dsimp only
    rw [shownLine, if_pos first]
    cases rest with
    | nil => simp
    | cons next rest =>
      have within : startsBlock contextLines lines (start + 1) = false := by
        simp [startsBlock, first]
      rw [inductionHypothesis (fun i low high => near i (by omega) (by simp at high ⊢; omega))
        (by simp), within, List.append_assoc]
      rfl

/-- Lines none of which is near are left out. -/
theorem shown_far (segment : List Line) {start : Nat}
    (far : ∀ i, start ≤ i → i < start + segment.length → isNear contextLines lines i = false) :
    (segment.zipIdx start).flatMap (fun (line, i) => shownLine contextLines lines i line.text) =
      [] := by
  rw [List.flatMap_eq_nil_iff]
  rintro ⟨line, i⟩ isIn
  obtain ⟨low, high, -⟩ := List.mem_zipIdx isIn
  dsimp only
  rw [shownLine, far i low high, if_neg Bool.false_ne_true]

end Reference

/-! ### Active and quiet lines -/

/-- The lines up to the last one that is hit. -/
def Active (active : List Line) : Prop :=
  active = [] ∨ ∃ before line, active = before ++ [line] ∧ line.hit = true

/-- No line is hit. -/
def Quiet (quiet : List Line) : Prop := ∀ line ∈ quiet, line.hit = false

/-- The number of quiet lines that are written behind the active ones. -/
def trailing (contextLines : Nat) (active : List Line) : Nat :=
  if active = [] then 0 else contextLines

section Active

theorem exists_active (lines : List Line) :
    ∃ active quiet, lines = active ++ quiet ∧ Active active ∧ Quiet quiet := by
  induction lines using List.reverseRecOn with
  | nil => exact ⟨[], [], rfl, Or.inl rfl, nofun⟩
  | append_singleton lines line inductionHypothesis =>
    cases hit : line.hit with
    | true => exact ⟨lines ++ [line], [], by simp, Or.inr ⟨lines, line, rfl, hit⟩, nofun⟩
    | false =>
      obtain ⟨active, quiet, rfl, isActive, isQuiet⟩ := inductionHypothesis
      refine ⟨active, quiet ++ [line], List.append_assoc _ _ _, isActive, fun other isIn => ?_⟩
      rcases List.mem_append.mp isIn with before | last
      · exact isQuiet other before
      · rwa [List.mem_singleton.mp last]

variable (isActive : Active active)

include isActive

/-- The last active line is hit. -/
theorem Active.last_hit (filled : active ≠ []) :
    ∃ line, active[active.length - 1]? = some line ∧ line.hit = true := by
  rcases isActive with empty | ⟨before, line, rfl, hit⟩
  · exact absurd empty filled
  · exact ⟨line, by simp, hit⟩

/-- What follows the active lines does not bring more of them near. -/
theorem isNear_active (more : List Line) {i : Nat} (below : i < active.length) :
    isNear contextLines (active ++ more) i = isNear contextLines active i := by
  rw [Bool.eq_iff_iff, isNear_iff, isNear_iff]
  constructor
  · rintro ⟨j, line, isLine, hit, high, low⟩
    by_cases inside : j < active.length
    · rw [List.getElem?_append_left inside] at isLine
      exact ⟨j, line, isLine, hit, high, low⟩
    · obtain ⟨last, isLast, lastHit⟩ := isActive.last_hit (by rintro rfl; contradiction)
      exact ⟨_, last, isLast, lastHit, by omega, by omega⟩
  · rintro ⟨j, line, isLine, hit, high, low⟩
    obtain ⟨inside, -⟩ := List.getElem?_eq_some_iff.mp isLine
    exact ⟨j, line, by rwa [List.getElem?_append_left inside], hit, high, low⟩

theorem shown_active (more : List Line) :
    active.zipIdx.flatMap
      (fun (line, i) => shownLine contextLines (active ++ more) i line.text) =
      reference contextLines active := by
  refine List.flatMap_congr fun (line, i) isIn => ?_
  obtain ⟨-, high, -⟩ := List.mem_zipIdx isIn
  rw [Nat.zero_add] at high
  have same : ∀ j ≤ i, isNear contextLines (active ++ more) j = isNear contextLines active j :=
    fun j le => isNear_active isActive more (by omega)
  have earlier : (List.range i).any (isNear contextLines (active ++ more)) =
      (List.range i).any (isNear contextLines active) := by
    rw [Bool.eq_iff_iff, List.any_eq_true, List.any_eq_true]
    refine exists_congr fun j => and_congr_right fun isBelow => ?_
    rw [same j (Nat.le_of_lt (List.mem_range.mp isBelow))]
  dsimp only
  rw [shownLine, shownLine, startsBlock, startsBlock, same i (Nat.le_refl _),
    same (i - 1) (by omega), earlier]

/-- A quiet line is near if it stands right behind the active lines. -/
theorem isNear_quiet (isQuiet : Quiet quiet) (t : Nat) :
    isNear contextLines (active ++ quiet) (active.length + t) = true ↔
      t < trailing contextLines active := by
  rw [isNear_iff, trailing]
  constructor
  · rintro ⟨j, line, isLine, hit, high, low⟩
    by_cases inside : j < active.length
    · rw [if_neg (by rintro rfl; contradiction)]
      omega
    · rw [List.getElem?_append_right (by omega)] at isLine
      exact absurd hit (by rw [isQuiet line (List.mem_of_getElem? isLine)]; nofun)
  · intro less
    split at less
    · omega
    · next filled =>
      obtain ⟨line, isLine, hit⟩ := isActive.last_hit filled
      have positive := List.length_pos_of_ne_nil filled
      exact ⟨active.length - 1, line, by rwa [List.getElem?_append_left (by omega)], hit, by omega,
        by omega⟩

/-- A quiet line in front of a line that is hit may be near that one as well. -/
theorem isNear_gap (isQuiet : Quiet quiet) {line : Line} (hit : line.hit = true) {t : Nat}
    (le : t ≤ quiet.length) :
    isNear contextLines (active ++ quiet ++ [line]) (active.length + t) = true ↔
      t < trailing contextLines active ∨ quiet.length ≤ t + contextLines := by
  rw [← isNear_quiet isActive isQuiet, isNear_iff, isNear_iff]
  constructor
  · rintro ⟨j, other, isOther, otherHit, high, low⟩
    by_cases inside : j < (active ++ quiet).length
    · rw [List.getElem?_append_left inside] at isOther
      exact Or.inl ⟨j, other, isOther, otherHit, high, low⟩
    · rw [List.length_append] at inside
      exact Or.inr (by omega)
  · rintro (⟨j, other, isOther, otherHit, high, low⟩ | close)
    · obtain ⟨inside, -⟩ := List.getElem?_eq_some_iff.mp isOther
      exact ⟨j, other, by rwa [List.getElem?_append_left inside], otherHit, high, low⟩
    · exact ⟨(active ++ quiet).length, line, List.getElem?_concat_length, hit, by
        rw [List.length_append]; omega, by rw [List.length_append]; omega⟩

/-- Behind active lines no new block starts. -/
theorem startsBlock_active (more : List Line) :
    startsBlock contextLines (active ++ more) active.length = false := by
  by_cases filled : active = []
  · rw [filled]
    rfl
  · obtain ⟨line, isLine, hit⟩ := isActive.last_hit filled
    have positive := List.length_pos_of_ne_nil filled
    have near : isNear contextLines (active ++ more) (active.length - 1) = true := by
      rw [isNear_iff]
      exact ⟨active.length - 1, line, by rwa [List.getElem?_append_left (by omega)], hit, by omega,
        by omega⟩
    simp [startsBlock, near]

omit isActive in
/-- The lines from one place on, in two parts. -/
theorem shown_append (lines first second : List Line) (start : Nat) :
    ((first ++ second).zipIdx start).flatMap
      (fun (line, i) => shownLine contextLines lines i line.text) =
      (first.zipIdx start).flatMap (fun (line, i) => shownLine contextLines lines i line.text) ++
        (second.zipIdx (start + first.length)).flatMap
          (fun (line, i) => shownLine contextLines lines i line.text) := by
  rw [List.zipIdx_append, List.flatMap_append]

/-- Quiet lines behind active ones. -/
theorem reference_quiet (isQuiet : Quiet quiet) :
    reference contextLines (active ++ quiet) = reference contextLines active ++
      (quiet.take (trailing contextLines active)).flatMap Line.text := by
  have near := @isNear_quiet contextLines active quiet isActive isQuiet
  have parts := @shown_append contextLines (active ++ quiet)
    (quiet.take (trailing contextLines active)) (quiet.drop (trailing contextLines active))
    active.length
  rw [List.take_append_drop] at parts
  rw [reference, shown_append, shown_active isActive, Nat.zero_add, parts,
    shown_far (quiet.drop _), List.append_nil]
  · congr 1
    by_cases none : quiet.take (trailing contextLines active) = []
    · rw [none]
      rfl
    · rw [shown_near _ ?_ none, startsBlock_active isActive]
      · rfl
      · intro i low high
        rw [List.length_take] at high
        obtain ⟨t, rfl⟩ := Nat.exists_eq_add_of_le low
        exact (near t).mpr (by omega)
  · intro i low high
    rw [List.length_take] at low high
    rw [List.length_drop] at high
    obtain ⟨t, rfl⟩ : ∃ t, i = active.length + t := ⟨i - active.length, by omega⟩
    exact Bool.eq_false_iff.mpr fun isNear => absurd ((near t).mp isNear) (by omega)

/-- A block starts where lines were left out, unless it is the first one. -/
theorem startsBlock_gap (isQuiet : Quiet quiet) {line : Line} (hit : line.hit = true)
    (gap : trailing contextLines active + contextLines < quiet.length) :
    startsBlock contextLines (active ++ quiet ++ [line])
      (active.length + (quiet.length - contextLines)) = decide (active ≠ []) := by
  have near := @isNear_gap contextLines active quiet isActive isQuiet line hit
  have far : isNear contextLines (active ++ quiet ++ [line])
      (active.length + (quiet.length - contextLines) - 1) = false := by
    rw [show active.length + (quiet.length - contextLines) - 1 =
      active.length + (quiet.length - contextLines - 1) by omega, Bool.eq_false_iff, Ne,
      near (by omega)]
    omega
  have inside : (active.length + (quiet.length - contextLines) != 0) = true := by
    rw [bne_iff_ne]
    omega
  rw [startsBlock, far, inside, Bool.not_false, Bool.and_true, Bool.true_and, Bool.eq_iff_iff,
    List.any_eq_true, decide_eq_true_eq]
  constructor
  · rintro ⟨i, isBelow, isNear⟩ rfl
    rw [List.mem_range, List.length_nil, Nat.zero_add] at isBelow
    have close := (@near i (by omega)).mp (by rwa [List.length_nil, Nat.zero_add])
    simp only [trailing, if_true] at close
    omega
  · intro filled
    have positive := List.length_pos_of_ne_nil filled
    obtain ⟨last, isLast, lastHit⟩ := isActive.last_hit filled
    refine ⟨active.length - 1, List.mem_range.mpr (by omega), ?_⟩
    rw [isNear_iff, List.append_assoc]
    exact ⟨active.length - 1, last, by rwa [List.getElem?_append_left (by omega)], lastHit,
      by omega, by omega⟩

/-- A line that is hit behind quiet lines: they are all written if nothing would be left out, and
otherwise the last ones of them, behind a separator if this is not the first block. -/
theorem reference_hit (isQuiet : Quiet quiet) {line : Line} (hit : line.hit = true) :
    reference contextLines (active ++ quiet ++ [line]) = reference contextLines active ++
      (quiet.take (trailing contextLines active)).flatMap Line.text ++
      (if active ≠ [] ∧ trailing contextLines active + contextLines < quiet.length then separator
        else []) ++
      (quiet.drop (max (trailing contextLines active) (quiet.length - contextLines))).flatMap
        Line.text ++ line.text := by
  have near := @isNear_gap contextLines active quiet isActive isQuiet line hit
  have starts := @startsBlock_gap contextLines active quiet isActive isQuiet line hit
  have ahead := @startsBlock_active contextLines active isActive (quiet ++ [line])
  have front := @shown_active contextLines active isActive (quiet ++ [line])
  rw [← List.append_assoc] at ahead front
  rw [reference]
  nth_rewrite 2 [List.append_assoc]
  rw [shown_append, front, Nat.zero_add]
  generalize active ++ quiet ++ [line] = lines at near starts ahead
  generalize trailing contextLines active = after at near starts
  by_cases gap : after + contextLines < quiet.length
  · -- The lines behind the active ones, those that are left out, and those before the hit.
    have isMax : max after (quiet.length - contextLines) = quiet.length - contextLines := by omega
    have parts : quiet ++ [line] = quiet.take after ++
        ((quiet.drop after).take (quiet.length - contextLines - after) ++
          (quiet.drop (quiet.length - contextLines) ++ [line])) := by
      rw [← List.append_assoc, ← List.append_assoc]
      congr 1
      nth_rewrite 1 [← List.take_append_drop after quiet,
        ← List.take_append_drop (quiet.length - contextLines - after) (quiet.drop after)]
      rw [List.drop_drop, List.append_assoc, Nat.add_sub_of_le (by omega)]
    have lengths : (quiet.take after).length = after ∧
        ((quiet.drop after).take (quiet.length - contextLines - after)).length =
          quiet.length - contextLines - after ∧
        (quiet.drop (quiet.length - contextLines) ++ [line]).length = contextLines + 1 := by
      simp only [List.length_take, List.length_drop, List.length_append, List.length_singleton]
      omega
    have behind : ((quiet.take after).zipIdx active.length).flatMap
        (fun (line, i) => shownLine contextLines lines i line.text) =
        (quiet.take after).flatMap Line.text := by
      by_cases none : quiet.take after = []
      · rw [none]
        rfl
      · rw [shown_near _ (fun i low high => ?_) none, ahead]
        · rfl
        · obtain ⟨t, rfl⟩ := Nat.exists_eq_add_of_le low
          exact (near (by omega)).mpr (by omega)
    have between : (((quiet.drop after).take (quiet.length - contextLines - after)).zipIdx
        (active.length + after)).flatMap
        (fun (line, i) => shownLine contextLines lines i line.text) = [] := by
      refine shown_far _ fun i low high => ?_
      obtain ⟨t, rfl⟩ : ∃ t, i = active.length + t := ⟨i - active.length, by omega⟩
      rw [Bool.eq_false_iff, Ne, near (by omega)]
      omega
    have before : ((quiet.drop (quiet.length - contextLines) ++ [line]).zipIdx
        (active.length + (quiet.length - contextLines))).flatMap
        (fun (line, i) => shownLine contextLines lines i line.text) =
        (if active ≠ [] then separator else []) ++
          (quiet.drop (quiet.length - contextLines) ++ [line]).flatMap Line.text := by
      rw [shown_near _ (fun i low high => ?_) (by simp), starts gap]
      · simp only [decide_eq_true_eq]
      · obtain ⟨t, rfl⟩ : ∃ t, i = active.length + t := ⟨i - active.length, by omega⟩
        exact (near (by omega)).mpr (by omega)
    rw [parts, shown_append, shown_append, lengths.1, lengths.2.1, behind, between, add_assoc,
      Nat.add_sub_of_le (by omega), before, isMax]
    simp [gap]
  · -- Every line is near, so the block goes on.
    have isMax : max after (quiet.length - contextLines) = after := by omega
    have all : ((quiet ++ [line]).zipIdx active.length).flatMap
        (fun (line, i) => shownLine contextLines lines i line.text) =
        (quiet ++ [line]).flatMap Line.text := by
      rw [shown_near _ (fun i low high => ?_) (by simp), ahead]
      · rfl
      · rw [List.length_append, List.length_singleton] at high
        obtain ⟨t, rfl⟩ := Nat.exists_eq_add_of_le low
        exact (near (by omega)).mpr (by omega)
    have whole : quiet.flatMap Line.text =
        (quiet.take after).flatMap Line.text ++ (quiet.drop after).flatMap Line.text := by
      rw [← List.flatMap_append, List.take_append_drop]
    rw [all, isMax, List.flatMap_append, whole]
    simp [gap]

omit isActive in
/-- More text at the end of a line that is hit. -/
theorem reference_extend (before : List Line) (text more : List UInt8) :
    reference contextLines (before ++ [⟨text ++ more, true⟩]) =
      reference contextLines (before ++ [⟨text, true⟩]) ++ more := by
  obtain ⟨active, quiet, rfl, isActive, isQuiet⟩ := exists_active before
  rw [reference_hit isActive isQuiet rfl, reference_hit isActive isQuiet rfl, List.append_assoc,
    List.append_assoc]
  simp only [List.append_assoc]

end Active

/-! ### The machine -/

section Machine

variable {buffers : Buffers contextLines} {init : List Line} {last : Line}

/-- The texts of the buffers. -/
def Buffers.texts (buffers : Buffers contextLines) : List (List UInt8) :=
  buffers.contextBuffers.toList.map CharBuffer.data

/-- What the machine holds when so many lines were seen. It prints while the line is active or
right behind the active ones; then it fills its buffers with quiet lines, and when they are full
it forgets the oldest ones. -/
inductive Buffering (active quiet : List Line) (buffers : Buffers contextLines) : Prop where
  | changed (filled : active ≠ []) (none : quiet = []) (state : buffers.state = .printingChanged)
  | after (filled : active ≠ []) (count : quiet.length = buffers.afterContextLines + 1)
      (few : quiet.length ≤ contextLines) (state : buffers.state = .printingAfterContext)
  | filling (count : quiet.length = trailing contextLines active + (buffers.bufferIndex + 1))
      (holds : Ring.started buffers.texts buffers.bufferIndex =
        (quiet.drop (trailing contextLines active)).map Line.text)
      (state : buffers.state = if active = [] then .preBufferingInitial else .preBuffering)
  | full (many : trailing contextLines active + (contextLines + 1) < quiet.length)
      (holds : Ring.contents buffers.texts buffers.bufferIndex =
        (quiet.drop (quiet.length - (contextLines + 1))).map Line.text)
      (state : buffers.state = if active = [] then .bufferingInitial else .buffering)

/-- The machine has written what it should have written. -/
structure Shows (lines : List Line) (buffers : Buffers contextLines) : Prop where
  output : buffers.output = reference contextLines lines
  stage : ∃ active quiet, lines = active ++ quiet ∧ Active active ∧ Quiet quiet ∧
    Buffering active quiet buffers

theorem texts_length (buffers : Buffers contextLines) :
    buffers.texts.length = contextLines + 1 := by
  rw [Buffers.texts, List.length_map, Vector.length_toList]

theorem lowerText_eq (buffers : Buffers contextLines) :
    buffers.lowerText (buffers.bufferIndex + 1) =
      (Ring.started buffers.texts buffers.bufferIndex).flatten := by
  rw [Buffers.lowerText, Ring.started, Buffers.texts, ← List.map_take, List.flatMap_def]

theorem upperText_eq (buffers : Buffers contextLines) :
    buffers.upperText (buffers.bufferIndex + 1) ++ buffers.lowerText (buffers.bufferIndex + 1) =
      (Ring.contents buffers.texts buffers.bufferIndex).flatten := by
  rw [Buffers.lowerText, Buffers.upperText, Ring.contents, Buffers.texts, ← List.map_take,
    ← List.map_drop, List.flatten_append, List.flatMap_def, List.flatMap_def]

theorem texts_setCurrent (buffers : Buffers contextLines) (buffer : CharBuffer) :
    (buffers.setCurrent buffer).texts = buffers.texts.set buffers.bufferIndex buffer.data := by
  rw [Buffers.texts, Buffers.setCurrent, Vector.toList_set, List.map_set]
  rfl

/-- A list of lines with a last one ends with the last quiet line. -/
theorem exists_quiet_last (isLines : init ++ [last] = active ++ quiet) (filled : quiet ≠ []) :
    ∃ rest, quiet = rest ++ [last] ∧ init = active ++ rest := by
  obtain ⟨rest, line, rfl⟩ := List.eq_nil_or_concat' quiet |>.resolve_left filled
  rw [← List.append_assoc] at isLines
  obtain ⟨rfl, same⟩ := List.append_inj' isLines rfl
  exact ⟨rest, by rw [List.singleton_inj.mp same], rfl⟩

/-- Behind a line that is hit everything is printed. -/
theorem Buffering.printing (stage : Buffering active quiet buffers) (none : quiet = []) :
    buffers.state = .printingChanged := by
  cases stage with
  | changed filled none state => exact state
  | after filled count few state | filling count holds state => simp [none] at count
  | full many holds state => simp [none] at many

/-- When the last line is active it is hit. -/
theorem Active.last_line (isActive : Active (init ++ [last])) : last.hit = true := by
  rcases isActive with empty | ⟨before, line, isLines, hit⟩
  · simp at empty
  · rwa [List.singleton_inj.mp (List.append_inj' isLines rfl).2]

theorem Quiet.append {more : List Line} (isQuiet : Quiet quiet) (isQuiet' : Quiet more) :
    Quiet (quiet ++ more) :=
  fun line isIn => (List.mem_append.mp isIn).elim (isQuiet line) (isQuiet' line)

theorem Quiet.left {more : List Line} (isQuiet : Quiet (quiet ++ more)) : Quiet quiet :=
  fun line isIn => isQuiet line (List.mem_append_left more isIn)

/-- What is printed when a quiet line is hit. -/
theorem heldText_eq {rest : List Line} (isActive : Active active) (isQuiet : Quiet (rest ++ [last]))
    (stage : Buffering active (rest ++ [last]) buffers) :
    reference contextLines (active ++ (rest ++ [last])) ++ buffers.heldText =
      reference contextLines (active ++ rest ++ [{ last with hit := true }]) := by
  rw [reference_quiet isActive isQuiet, reference_hit isActive isQuiet.left rfl]
  have length : (rest ++ [last]).length = rest.length + 1 := by simp
  cases stage with
  | changed filled none state => simp at none
  | after filled count few state =>
    rw [length] at few
    have isTrailing : trailing contextLines active = contextLines := if_neg filled
    rw [Buffers.heldText, state, isTrailing, List.take_of_length_le (by omega),
      List.take_of_length_le (by omega), if_neg (by omega), List.drop_of_length_le (by omega)]
    simp
  | filling count holds state =>
    rw [length] at count
    have inside := buffers.bufferIndex.2
    have held : buffers.heldText =
        ((rest ++ [last]).drop (trailing contextLines active)).flatMap Line.text := by
      rw [List.flatMap_def, ← holds, ← lowerText_eq, Buffers.heldText, state]
      by_cases empty : active = [] <;> simp [empty]
    rw [held, List.take_append_of_le_length (by omega), List.drop_append_of_le_length (by omega),
      if_neg (by omega), Nat.max_eq_left (by omega)]
    simp
  | full many holds state =>
    rw [length] at many
    have held : buffers.heldText = (if active ≠ [] then separator else []) ++
        ((rest ++ [last]).drop (rest.length - contextLines)).flatMap Line.text := by
      rw [length, Nat.add_sub_add_right] at holds
      rw [List.flatMap_def, ← holds, ← upperText_eq, Buffers.heldText, state]
      by_cases empty : active = [] <;> simp [empty]
    have gap : trailing contextLines active + contextLines < rest.length := by omega
    rw [held, List.take_append_of_le_length (by omega), List.drop_append_of_le_length (by omega),
      Nat.max_eq_right (by omega)]
    simp [gap]

/-- A character that is not common hits the line. -/
theorem Shows.reveal (shows : Shows (init ++ [last]) buffers) :
    Shows (init ++ [{ last with hit := true }]) buffers.reveal := by
  obtain ⟨active, quiet, isLines, isActive, isQuiet, stage⟩ := shows.stage
  by_cases none : quiet = []
  · rw [none, List.append_nil] at isLines
    have hit : last.hit = true := Active.last_line (isLines ▸ isActive)
    have same : { last with hit := true } = last := by rw [← hit]
    have printing := stage.printing none
    have nothing : buffers.heldText = [] := by rw [Buffers.heldText, printing]
    rw [same]
    refine ⟨?_, init ++ [last], [], by simp, isLines ▸ isActive, nofun,
      .changed (by simp) rfl rfl⟩
    show buffers.output ++ buffers.heldText = _
    rw [nothing, List.append_nil, shows.output]
  · obtain ⟨rest, rfl, rfl⟩ := exists_quiet_last isLines none
    refine ⟨?_, _, [], (List.append_nil _).symm, Or.inr ⟨_, _, rfl, rfl⟩, nofun,
      .changed (by simp) rfl rfl⟩
    show buffers.output ++ buffers.heldText = _
    rw [shows.output, isLines, heldText_eq isActive isQuiet stage]

theorem current_data (buffers : Buffers contextLines)
    (inside : buffers.bufferIndex < buffers.texts.length) :
    buffers.current.data = buffers.texts[(buffers.bufferIndex : Nat)] := by
  simp [Buffers.current, Buffers.texts, Vector.get]

/-- More text for the present line: it is printed or held back with the line. -/
def Buffers.store (buffers : Buffers contextLines) (buffer : CharBuffer) (text : List UInt8) :
    Buffers contextLines :=
  if buffers.state.buffers then buffers.setCurrent buffer else buffers.put text

theorem Shows.store (shows : Shows (init ++ [last]) buffers) {buffer : CharBuffer}
    {text : List UInt8} (isText : buffer.data = buffers.current.data ++ text) :
    Shows (init ++ [{ last with text := last.text ++ text }]) (buffers.store buffer text) := by
  obtain ⟨active, quiet, isLines, isActive, isQuiet, stage⟩ := shows.stage
  have inside : buffers.bufferIndex < buffers.texts.length := by
    rw [texts_length]
    exact buffers.bufferIndex.2
  have isCurrent := current_data buffers inside
  by_cases none : quiet = []
  · rw [none, List.append_nil] at isLines
    have hit : last.hit = true := Active.last_line (isLines ▸ isActive)
    have printing := stage.printing none
    have isStore : buffers.store buffer text = buffers.put text := by
      rw [Buffers.store, printing]
      rfl
    rw [isStore, hit]
    refine ⟨?_, _, [], (List.append_nil _).symm, Or.inr ⟨_, _, rfl, rfl⟩, nofun,
      .changed (by simp) rfl printing⟩
    show buffers.output ++ text = _
    rw [shows.output, reference_extend, ← hit]
  · obtain ⟨rest, rfl, rfl⟩ := exists_quiet_last isLines none
    have quietLast : last.hit = false := isQuiet last (by simp)
    have isQuiet' : Quiet (rest ++ [{ last with text := last.text ++ text }]) :=
      isQuiet.left.append (by simpa [Quiet] using quietLast)
    have output := shows.output
    rw [isLines, reference_quiet isActive isQuiet] at output
    rw [List.append_assoc]
    cases stage with
    | changed filled none state => simp at none
    | after filled count few state =>
      have isStore : buffers.store buffer text = buffers.put text := by
        rw [Buffers.store, state]
        rfl
      have isTrailing : trailing contextLines active = contextLines := if_neg filled
      rw [isStore]
      refine ⟨?_, active, _, rfl, isActive, isQuiet', .after filled
        (by rw [List.length_append] at count ⊢; exact count) (by simpa using few) state⟩
      show buffers.output ++ text = _
      rw [isTrailing, List.take_of_length_le few] at output
      rw [output, reference_quiet isActive isQuiet', isTrailing,
        List.take_of_length_le (by simpa using few)]
      simp
    | filling count holds state =>
      rw [List.length_append, List.length_singleton] at count
      have isStore : buffers.store buffer text = buffers.setCurrent buffer := by
        rw [Buffers.store, state]
        by_cases empty : active = [] <;> simp [empty, PrintState.buffers]
      rw [isStore]
      rw [Ring.started_eq inside, List.drop_append_of_le_length (by omega), List.map_append]
        at holds
      obtain ⟨isRest, isLast⟩ := List.append_inj' holds rfl
      refine ⟨?_, active, _, rfl, isActive, isQuiet', .filling
        (by rw [List.length_append]; exact count) ?_ state⟩
      · show buffers.output = _
        rw [output, reference_quiet isActive isQuiet', List.take_append_of_le_length (by omega),
          List.take_append_of_le_length (by omega)]
      · rw [texts_setCurrent, isText, isCurrent, List.drop_append_of_le_length (by omega),
          List.map_append, ← isRest, List.singleton_inj.mp isLast]
        exact Ring.started_set inside _
    | full many holds state =>
      rw [List.length_append, List.length_singleton] at many holds
      have isStore : buffers.store buffer text = buffers.setCurrent buffer := by
        rw [Buffers.store, state]
        by_cases empty : active = [] <;> simp [empty, PrintState.buffers]
      rw [isStore]
      rw [Ring.contents_eq inside, List.drop_append_of_le_length (by omega), List.map_append]
        at holds
      obtain ⟨isRest, isLast⟩ := List.append_inj' holds rfl
      refine ⟨?_, active, _, rfl, isActive, isQuiet', .full (by simpa using many) ?_ state⟩
      · show buffers.output = _
        rw [output, reference_quiet isActive isQuiet', List.take_append_of_le_length (by omega),
          List.take_append_of_le_length (by omega)]
      · rw [texts_setCurrent, isText, isCurrent, List.length_append, List.length_singleton,
          List.drop_append_of_le_length (by omega), List.map_append, ← isRest,
          List.singleton_inj.mp isLast]
        exact Ring.contents_set inside _

/-- The number of quiet lines behind the active ones does not count a new line. -/
theorem reference_newLine (isActive : Active active) (isQuiet : Quiet quiet) :
    reference contextLines (active ++ (quiet ++ [⟨[], false⟩])) =
      reference contextLines (active ++ quiet) := by
  rw [reference_quiet isActive (isQuiet.append (by simp [Quiet])), reference_quiet isActive isQuiet,
    List.take_append, List.flatMap_append]
  have nothing : (([⟨[], false⟩] : List Line).take
      (trailing contextLines active - quiet.length)).flatMap Line.text = [] := by
    cases trailing contextLines active - quiet.length <;> simp
  rw [nothing, List.append_nil]

/-- A new line, in a state that is given. -/
def Buffers.newLine (buffers : Buffers contextLines) (state : PrintState)
    (index : Fin (contextLines + 1)) (afterContextLines : Nat) : Buffers contextLines :=
  let buffers := { buffers with
    state := state, bufferIndex := index, afterContextLines := afterContextLines }
  buffers.setCurrent { buffers.current with data := [] }

theorem texts_newLine (buffers : Buffers contextLines) (state : PrintState)
    (index : Fin (contextLines + 1)) (afterContextLines : Nat) :
    (buffers.newLine state index afterContextLines).texts = buffers.texts.set index [] :=
  texts_setCurrent _ _

/-- Behind the last buffer comes the first one. -/
theorem nextIndex_val (index : Fin (contextLines + 1)) :
    (nextIndex index : Nat) = if index.val + 1 ≤ contextLines then index.val + 1 else 0 := by
  unfold nextIndex
  split <;> rfl

theorem Shows.endLine {lines : List Line} (shows : Shows lines buffers) :
    Shows (lines ++ [⟨[], false⟩]) buffers.endLine := by
  obtain ⟨active, quiet, rfl, isActive, isQuiet, stage⟩ := shows.stage
  have isQuiet' : Quiet (quiet ++ [⟨[], false⟩]) := isQuiet.append (by simp [Quiet])
  have inside : buffers.bufferIndex < buffers.texts.length := by
    rw [texts_length]
    exact buffers.bufferIndex.2
  rw [List.append_assoc]
  have output : buffers.endLine.output =
      reference contextLines (active ++ (quiet ++ [⟨[], false⟩])) := by
    rw [reference_newLine isActive isQuiet, ← shows.output]
    unfold Buffers.endLine
    cases buffers.state with
    | printingChanged | printingAfterContext => dsimp only; split <;> rfl
    | preBuffering => rfl
    | buffering => rfl
    | preBufferingInitial => rfl
    | bufferingInitial => rfl
  refine ⟨output, active, _, rfl, isActive, isQuiet', ?_⟩
  have length : (quiet ++ [(⟨[], false⟩ : Line)]).length = quiet.length + 1 := by simp
  cases stage with
  | changed filled none state =>
    subst none
    have isTrailing : trailing contextLines active = contextLines := if_neg filled
    by_cases zero : contextLines = 0
    · have isEnd : buffers.endLine =
          buffers.newLine .preBuffering buffers.bufferIndex buffers.afterContextLines := by
        rw [Buffers.endLine, state]
        dsimp only
        rw [if_pos zero]
        rfl
      have isFirst : (buffers.bufferIndex : Nat) = 0 := by omega
      rw [isEnd]
      refine .filling ?_ ?_ (if_neg filled).symm
      · show 0 + 1 = trailing contextLines active + ((buffers.bufferIndex : Nat) + 1)
        omega
      · have none : trailing contextLines active = 0 := isTrailing.trans zero
        rw [texts_newLine, none]
        exact (Ring.started_set inside []).trans (by rw [isFirst]; rfl)
    · have isEnd : buffers.endLine =
          buffers.newLine .printingAfterContext buffers.bufferIndex 0 := by
        rw [Buffers.endLine, state]
        dsimp only
        rw [if_neg zero]
        rfl
      rw [isEnd]
      exact .after filled rfl (by simp; omega) rfl
  | after filled count few state =>
    have isTrailing : trailing contextLines active = contextLines := if_neg filled
    by_cases last : buffers.afterContextLines + 1 = contextLines
    · have isEnd : buffers.endLine =
          buffers.newLine .preBuffering 0 (buffers.afterContextLines + 1) := by
        rw [Buffers.endLine, state]
        dsimp only
        rw [if_pos last]
        rfl
      rw [isEnd]
      refine .filling ?_ ?_ (if_neg filled).symm
      · show _ = trailing contextLines active + (0 + 1)
        omega
      · rw [texts_newLine, isTrailing, List.drop_append_of_le_length (by omega),
          List.drop_of_length_le (by omega)]
        exact Ring.started_set (Nat.zero_lt_of_lt inside) []
    · have isEnd : buffers.endLine = buffers.newLine .printingAfterContext buffers.bufferIndex
          (buffers.afterContextLines + 1) := by
        rw [Buffers.endLine, state]
        dsimp only
        rw [if_neg last]
        rfl
      rw [isEnd]
      exact .after filled (length.trans (congrArg (· + 1) count)) (by omega) rfl
  | filling count holds state =>
    have isNext := nextIndex_val buffers.bufferIndex
    rw [texts_length] at inside
    by_cases wraps : contextLines < buffers.bufferIndex + 1
    · have isEnd : buffers.endLine = buffers.newLine
          (if active = [] then .bufferingInitial else .buffering) (nextIndex buffers.bufferIndex)
          buffers.afterContextLines := by
        rw [Buffers.endLine, state]
        by_cases empty : active = [] <;> simp [empty, wraps, Buffers.newLine]
      rw [if_neg (by omega)] at isNext
      have allUsed : (buffers.bufferIndex : Nat) + 1 = buffers.texts.length := by
        rw [texts_length]
        omega
      rw [isEnd]
      refine .full (by omega) ?_ rfl
      rw [Ring.started_last allUsed] at holds
      rw [texts_newLine]
      show Ring.contents (buffers.texts.set (nextIndex buffers.bufferIndex) [])
        (nextIndex buffers.bufferIndex) = _
      rw [isNext, Ring.contents_wrap allUsed, Ring.contents_last allUsed, holds, length,
        List.drop_append_of_le_length (by omega), List.map_append, ← List.map_tail, List.tail_drop]
      congr 3
      omega
    · have isEnd : buffers.endLine = buffers.newLine
          (if active = [] then .preBufferingInitial else .preBuffering)
          (nextIndex buffers.bufferIndex) buffers.afterContextLines := by
        rw [Buffers.endLine, state]
        by_cases empty : active = [] <;> simp [empty, wraps, Buffers.newLine]
      rw [if_pos (by omega)] at isNext
      rw [isEnd]
      refine .filling ?_ ?_ rfl
      · show _ = trailing contextLines active + ((nextIndex buffers.bufferIndex : Nat) + 1)
        omega
      · rw [texts_newLine]
        show Ring.started (buffers.texts.set (nextIndex buffers.bufferIndex) [])
          (nextIndex buffers.bufferIndex) = _
        rw [isNext, Ring.started_next (by rw [texts_length]; omega), holds,
          List.drop_append_of_le_length (by omega), List.map_append]
        rfl
  | full many holds state =>
    have isNext := nextIndex_val buffers.bufferIndex
    have isEnd : buffers.endLine = buffers.newLine
        (if active = [] then .bufferingInitial else .buffering) (nextIndex buffers.bufferIndex)
        buffers.afterContextLines := by
      rw [Buffers.endLine, state]
      by_cases empty : active = [] <;> simp [empty, Buffers.newLine]
    have forgets : Ring.contents (buffers.texts.set (nextIndex buffers.bufferIndex) [])
        (nextIndex buffers.bufferIndex) =
        (Ring.contents buffers.texts buffers.bufferIndex).tail ++ [[]] := by
      rw [texts_length] at inside
      rw [isNext]
      split
      · exact Ring.contents_next (by rw [texts_length]; omega) []
      · exact Ring.contents_wrap (by rw [texts_length]; omega) []
    rw [isEnd]
    refine .full (by omega) ?_ rfl
    rw [texts_newLine]
    refine forgets.trans ?_
    rw [holds, length, List.drop_append_of_le_length (by omega), List.map_append, ← List.map_tail,
      List.tail_drop]
    congr 3
    omega

/-! ### Sequences of calls -/

/-- The calls that the reference is about. A string never holds a newline. -/
def Emission.Plain : Emission → Prop
  | .addchar _ _ => True
  | .writeString string => 10 ∉ string
  | _ => False

/-- A text has a last line, and one more character is a character of that line. -/
theorem splitLines_snoc (text : List (UInt8 × Bool)) :
    ∃ init last, splitLines text = init ++ [last] ∧ ∀ byte hit, splitLines (text ++ [(byte, hit)]) =
      init ++ ⟨last.text ++ [byte], last.hit || hit⟩ ::
        if byte = 10 then [⟨[], false⟩] else [] := by
  induction text with
  | nil =>
    refine ⟨[], ⟨[], false⟩, rfl, fun byte hit => ?_⟩
    by_cases newline : byte = 10 <;> simp [splitLines, newline]
  | cons head rest inductionHypothesis =>
    obtain ⟨byte, hit⟩ := head
    obtain ⟨init, last, isLines, snoc⟩ := inductionHypothesis
    by_cases newline : byte = 10
    · refine ⟨⟨[byte], hit⟩ :: init, last, ?_, fun byte' hit' => ?_⟩
      · rw [splitLines, if_pos newline, isLines]
        rfl
      · rw [List.cons_append, splitLines, if_pos newline, snoc]
        rfl
    · cases init with
      | nil =>
        refine ⟨[], ⟨byte :: last.text, hit || last.hit⟩, ?_, fun byte' hit' => ?_⟩
        · rw [splitLines, if_neg newline, isLines]
          rfl
        · rw [List.cons_append, splitLines, if_neg newline, snoc]
          simp [Bool.or_assoc]
      | cons line lines =>
        refine ⟨⟨byte :: line.text, hit || line.hit⟩ :: lines, last, ?_, fun byte' hit' => ?_⟩
        · rw [splitLines, if_neg newline, isLines]
          rfl
        · rw [List.cons_append, splitLines, if_neg newline, snoc]
          rfl

/-- A string without newlines belongs to the last line. -/
theorem splitLines_string {string : List UInt8} (noNewline : 10 ∉ string)
    {text : List (UInt8 × Bool)} (isLines : splitLines text = init ++ [last]) :
    splitLines (text ++ string.map fun byte => (byte, false)) =
      init ++ [{ last with text := last.text ++ string }] := by
  induction string generalizing text last with
  | nil => simp [isLines]
  | cons byte string inductionHypothesis =>
    obtain ⟨init', last', isLines', snoc⟩ := splitLines_snoc text
    obtain ⟨rfl, same⟩ := List.append_inj' (isLines.symm.trans isLines') rfl
    obtain rfl := List.singleton_inj.mp same
    have first := snoc byte false
    rw [if_neg fun newline => noNewline (by simp [newline]), Bool.or_false] at first
    rw [List.map_cons, List.append_cons]
    refine (inductionHypothesis (fun isIn => noNewline (List.mem_cons_of_mem _ isIn))
      first).trans ?_
    simp

theorem Shows.addchar (shows : Shows (init ++ [last]) buffers) (c : UInt8) (common : Bool) :
    Shows (init ++ ⟨last.text ++ [c], last.hit || !common⟩ :: if c = 10 then [⟨[], false⟩] else [])
      (Dwdiff.addchar true c common buffers) := by
  -- First the line may be hit, then it gets the character, then it may end.
  have revealed : Shows (init ++ [{ last with hit := last.hit || !common }])
      (if common then buffers else buffers.reveal) := by
    cases common with
    | true => simpa using shows
    | false => simpa using shows.reveal
  generalize isRevealed : (if common then buffers else buffers.reveal) = between at revealed
  have appends : (between.current.append c).data = between.current.data ++ [c] := rfl
  have stored := revealed.store appends
  have isAdded : Dwdiff.addchar true c common buffers =
      if c = 10 then (between.store (between.current.append c) [c]).endLine
      else between.store (between.current.append c) [c] := by
    rw [← isRevealed]
    rfl
  rw [isAdded]
  by_cases newline : c = 10
  · rw [if_pos newline, if_pos newline]
    have ended := stored.endLine
    rw [List.append_assoc] at ended
    exact ended
  · rw [if_neg newline, if_neg newline]
    exact stored

theorem Shows.writeString (shows : Shows (init ++ [last]) buffers) (string : List UInt8) :
    Shows (init ++ [{ last with text := last.text ++ string }])
      (Dwdiff.writeString true string buffers) := by
  have copies : (buffers.current.copy string).data = buffers.current.data ++ string := by
    unfold CharBuffer.copy CharBuffer.allocate
    dsimp only
    split <;> rfl
  exact shows.store copies

theorem shows_initial : Shows (splitLines []) (initialBuffers contextLines) where
  output := by simp [splitLines, reference, shownLine, isNear, initialBuffers]
  stage := by
    refine ⟨[], [⟨[], false⟩], rfl, Or.inl rfl, by simp [Quiet], .filling rfl ?_ rfl⟩
    simp [Ring.started, Buffers.texts, initialBuffers, trailing, CharBuffer.empty]

/-- Every sequence of calls writes what the reference says. -/
theorem performAll_shows (width : Nat) (emissions : List Emission)
    (plain : ∀ emission ∈ emissions, emission.Plain) :
    Shows (splitLines (emissions.flatMap Emission.marked))
      ((initialBuffers contextLines).performAll true width emissions) := by
  induction emissions using List.reverseRecOn with
  | nil => exact shows_initial
  | append_singleton emissions emission inductionHypothesis =>
    have shows := inductionHypothesis fun other isIn => plain other (List.mem_append_left _ isIn)
    have isPlain := plain emission (by simp)
    obtain ⟨init, last, isLines, snoc⟩ := splitLines_snoc (emissions.flatMap Emission.marked)
    rw [isLines] at shows
    rw [List.flatMap_append, List.flatMap_singleton, Buffers.performAll, List.foldl_append]
    cases emission with
    | addchar c common =>
      rw [Emission.marked, snoc]
      exact shows.addchar c common
    | writeString string =>
      rw [Emission.marked, splitLines_string isPlain isLines]
      exact shows.writeString string
    | printLineNumbers oldLineNumber newLineNumber | puts string => exact isPlain.elim

/-- The output with context lines is that of the reference. -/
theorem performAll_reference (contextLines width : Nat) (emissions : List Emission)
    (plain : ∀ emission ∈ emissions, emission.Plain) :
    ((initialBuffers contextLines).performAll true width emissions).output =
      reference contextLines (splitLines (emissions.flatMap Emission.marked)) :=
  (performAll_shows width emissions plain).output

/-- Three lines, the first and the last of which are hit, the last one behind a marker. -/
def twoHits : List Emission :=
  [.addchar 97 false, .addchar 10 true, .addchar 98 true, .addchar 10 true, .writeString [91],
    .addchar 99 false]

theorem performAll_reference_twoHits :
    ((initialBuffers 0).performAll true 1 twoHits).output =
      reference 0 (splitLines (twoHits.flatMap Emission.marked)) :=
  performAll_reference 0 1 twoHits (by simp [twoHits, Emission.Plain])

example : ((initialBuffers 0).performAll true 1 twoHits).output = [97, 10, 45, 45, 10, 91, 99] := by
  decide

end Machine

end Dwdiff
