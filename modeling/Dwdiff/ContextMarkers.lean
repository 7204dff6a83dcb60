/-
This file follows the calls of a run into context-line output. Every call belongs
to a line, which ends where a newline is passed to `addchar`. A line is written
if it is near a character that is not common, so a call reaches the output
exactly if its line does. The markers of a change are the ends of a stretch of
calls, and the file says which stretches never lose only their end.
-/

import Dwdiff.ContextLines
import Dwdiff.Markers
import Mathlib.Data.List.Infix

namespace Dwdiff

open Outcome

variable {contextLines i : Nat} {calls : List (Emission × List UInt8)}

/-! ### The lines of the calls -/

/-- Only a newline that is passed to `addchar` ends a line. -/
def Emission.endsLine : Emission → Bool
  | .addchar c _ => c == 10
  | _ => false

/-- A character that is not common. -/
def Emission.hits : Emission → Bool
  | .addchar _ common => !common
  | _ => false

/-- What a call may add to its line. What is added for line numbers depends on the room in the
buffer, and `puts` goes past the buffers. -/
def Emission.Contributes : Emission → List UInt8 → Prop
  | .addchar c _, text => text = [c]
  | .writeString string, text => text = string
  | .printLineNumbers _ _, _ => True
  | .puts _, text => text = []

/-- The lines that have ended, and the present one. -/
structure Page where
  ended : List Line
  present : Line

def emptyPage : Page := ⟨[], ⟨[], false⟩⟩

def Page.lines (page : Page) : List Line := page.ended ++ [page.present]

/-- A call with what it adds. -/
def Page.add (page : Page) (call : Emission × List UInt8) : Page :=
  let line : Line := ⟨page.present.text ++ call.2, page.present.hit || call.1.hits⟩
  if call.1.endsLine then ⟨page.ended ++ [line], ⟨[], false⟩⟩ else ⟨page.ended, line⟩

theorem Page.lines_add (page : Page) (call : Emission × List UInt8) :
    (page.add call).lines =
      page.ended ++ ⟨page.present.text ++ call.2, page.present.hit || call.1.hits⟩ ::
        if call.1.endsLine then [⟨[], false⟩] else [] := by
  unfold Page.add Page.lines
  cases call.1.endsLine <;> simp

def pageOf (calls : List (Emission × List UInt8)) : Page := calls.foldl Page.add emptyPage

theorem pageOf_snoc (calls : List (Emission × List UInt8)) (call : Emission × List UInt8) :
    pageOf (calls ++ [call]) = (pageOf calls).add call :=
  List.foldl_concat ..

/-- The number of lines that end with the calls. -/
def lineEnds (emissions : List Emission) : Nat := emissions.countP Emission.endsLine

theorem lineEnds_append (first second : List Emission) :
    lineEnds (first ++ second) = lineEnds first + lineEnds second :=
  List.countP_append

/-- The calls stand on the line whose number is that of the lines that ended before. -/
theorem pageOf_ended (calls : List (Emission × List UInt8)) :
    (pageOf calls).ended.length = lineEnds (calls.map Prod.fst) := by
  induction calls using List.reverseRecOn with
  | nil => rfl
  | append_singleton calls call inductionHypothesis =>
    rw [pageOf_snoc, List.map_append, lineEnds_append, ← inductionHypothesis]
    unfold Page.add
    cases ends : call.1.endsLine <;> simp [lineEnds, ends]

/-- A line is hit. -/
def Page.HitAt (page : Page) (i : Nat) : Prop :=
  ∃ line, page.lines[i]? = some line ∧ line.hit = true

theorem Page.hitAt_add {page : Page} {call : Emission × List UInt8} :
    (page.add call).HitAt i ↔
      page.HitAt i ∨ (call.1.hits = true ∧ i = page.ended.length) := by
  unfold Page.HitAt Page.add
  rcases Nat.lt_trichotomy i page.ended.length with low | rfl | high
  · cases call.1.endsLine <;>
      simp [Page.lines, List.getElem?_append_left, low, Nat.ne_of_lt low, Nat.lt_succ_of_lt low]
  · cases call.1.endsLine <;> simp [Page.lines]
  · obtain ⟨k, rfl⟩ : ∃ k, i = page.ended.length + (k + 1) := ⟨i - page.ended.length - 1, by omega⟩
    -- The line behind the present one is not hit, and there is none behind that.
    cases call.1.endsLine <;> cases k <;> simp [Page.lines]

/-- A line is hit by one of the calls that stand on it. -/
theorem hitAt_iff :
    (pageOf calls).HitAt i ↔ ∃ before emission after,
      calls.map Prod.fst = before ++ emission :: after ∧ emission.hits = true ∧
        lineEnds before = i := by
  induction calls using List.reverseRecOn with
  | nil =>
    refine iff_of_false ?_ (by simp)
    rintro ⟨line, isLine, isHit⟩
    cases i with
    | zero =>
      obtain rfl := Option.some.inj isLine
      exact Bool.false_ne_true isHit
    | succ i => exact absurd isLine (by simp [pageOf, emptyPage, Page.lines])
  | append_singleton calls call inductionHypothesis =>
    rw [pageOf_snoc, Page.hitAt_add, inductionHypothesis, pageOf_ended, List.map_append,
      List.map_singleton]
    constructor
    · rintro (⟨before, emission, after, same, isHit, isLine⟩ | ⟨isHit, rfl⟩)
      · exact ⟨before, emission, after ++ [call.1], by simp [same], isHit, isLine⟩
      · exact ⟨calls.map Prod.fst, call.1, [], rfl, isHit, rfl⟩
    · rintro ⟨before, emission, after, same, isHit, isLine⟩
      rcases List.eq_nil_or_concat' after with rfl | ⟨after, last, rfl⟩
      · obtain ⟨rfl, single⟩ := List.append_inj' same rfl
        obtain rfl := List.singleton_inj.mp single
        exact Or.inr ⟨isHit, isLine.symm⟩
      · rw [← List.cons_append, ← List.append_assoc] at same
        exact Or.inl ⟨before, emission, after, (List.append_inj' same rfl).1, isHit, isLine⟩

/-- A line of the calls is near a character that is not common. -/
def Near (contextLines : Nat) (emissions : List Emission) (i : Nat) : Prop :=
  ∃ before emission after, emissions = before ++ emission :: after ∧ emission.hits = true ∧
    i ≤ lineEnds before + contextLines ∧ lineEnds before ≤ i + contextLines

theorem isNear_pageOf :
    isNear contextLines (pageOf calls).lines i = true ↔
      Near contextLines (calls.map Prod.fst) i := by
  rw [isNear_iff]
  constructor
  · rintro ⟨j, line, isLine, isHit, low, high⟩
    obtain ⟨before, emission, after, same, hits, rfl⟩ := hitAt_iff.mp ⟨line, isLine, isHit⟩
    exact ⟨before, emission, after, same, hits, low, high⟩
  · rintro ⟨before, emission, after, same, hits, low, high⟩
    obtain ⟨line, isLine, isHit⟩ := hitAt_iff.mpr ⟨before, emission, after, same, hits, rfl⟩
    exact ⟨lineEnds before, line, isLine, isHit, low, high⟩

/-! ### Stretches of calls -/

/-- If the line where a stretch of calls begins is written, so is the line where it ends. -/
def Whole (contextLines : Nat) (before stretch after : List Emission) : Prop :=
  Near contextLines (before ++ stretch ++ after) (lineEnds before) →
    Near contextLines (before ++ stretch ++ after) (lineEnds (before ++ stretch))

/-- The stretch stays on one line, or it has a character that is not common at most so many lines
above its end. -/
def closed (contextLines : Nat) (stretch : List Emission) : Bool :=
  lineEnds stretch == 0 || stretch.tails.any fun tail =>
    tail.head?.any Emission.hits && decide (lineEnds tail ≤ contextLines)

theorem closed_iff {stretch : List Emission} :
    closed contextLines stretch = true ↔ lineEnds stretch = 0 ∨
      ∃ before emission after, stretch = before ++ emission :: after ∧ emission.hits = true ∧
        lineEnds (emission :: after) ≤ contextLines := by
  simp only [closed, Bool.or_eq_true, beq_iff_eq, List.any_eq_true, List.mem_tails,
    Bool.and_eq_true, decide_eq_true_eq]
  refine or_congr Iff.rfl ⟨?_, ?_⟩
  · rintro ⟨tail, ⟨before, rfl⟩, isHit, few⟩
    cases tail with
    | nil => exact absurd isHit Bool.false_ne_true
    | cons emission after => exact ⟨before, emission, after, rfl, isHit, few⟩
  · rintro ⟨before, emission, after, rfl, isHit, few⟩
    exact ⟨emission :: after, ⟨before, rfl⟩, isHit, few⟩

/-- The calls that put a stretch as far below a change as can be. -/
def farBelow (contextLines : Nat) : List Emission :=
  .addchar 0x78 false :: List.replicate contextLines (.addchar 10 true)

/-- The closed stretches are those that are whole wherever they stand. -/
theorem closed_iff_whole {stretch : List Emission} :
    closed contextLines stretch = true ↔
      ∀ before after, Whole contextLines before stretch after := by
  rw [closed_iff]
  constructor
  · rintro (oneLine | ⟨first, emission, rest, rfl, isHit, few⟩) before after isNear
    · rw [lineEnds_append, oneLine, Nat.add_zero]
      exact isNear
    · refine ⟨before ++ first, emission, rest ++ after, by simp, isHit, ?_, ?_⟩
      · rw [← List.append_assoc, lineEnds_append]
        exact Nat.add_le_add_left few _
      · rw [← List.append_assoc, lineEnds_append (before ++ first), Nat.add_assoc]
        exact Nat.le_add_right _ _
  · intro whole
    have ends : lineEnds (farBelow contextLines) = contextLines := by
      rw [lineEnds, farBelow, List.countP_cons, List.countP_replicate]
      rfl
    obtain ⟨first, emission, rest, same, isHit, low, -⟩ := whole (farBelow contextLines) []
      ⟨[], _, _, rfl, rfl, by rw [ends]; exact Nat.le_add_left _ _, Nat.zero_le _⟩
    rw [lineEnds_append, ends] at low
    rw [List.append_nil] at same
    -- The character that is near is one of the stretch, or the one far above it, and then the
    -- stretch ends no line.
    rcases List.append_eq_append_iff.mp same with
      ⟨middle, rfl, isStretch⟩ | ⟨middle, isFar, isRest⟩
    · rw [isStretch, lineEnds_append, lineEnds_append, ends] at low
      exact Or.inr ⟨middle, emission, rest, isStretch, isHit, by omega⟩
    · cases middle with
      | nil =>
        rw [← List.append_nil first, ← isFar, ends, ← show emission :: rest = stretch from isRest]
          at low
        exact Or.inr ⟨[], emission, rest, isRest.symm, isHit, by omega⟩
      | cons other middle =>
        obtain ⟨rfl, -⟩ := List.cons.inj isRest
        cases first with
        | nil =>
          have none : lineEnds [] = 0 := rfl
          exact Or.inl (by omega)
        | cons first firsts =>
          have isBelow : emission ∈ List.replicate contextLines (Emission.addchar 10 true) := by
            rw [(List.cons.inj isFar).2]
            exact List.mem_append_right firsts List.mem_cons_self
          rw [List.eq_of_mem_replicate isBelow] at isHit
          exact absurd isHit Bool.false_ne_true

/-! ### The machine -/

section Machine

variable {buffers : Buffers contextLines}

theorem printNumbers_data (buffer : CharBuffer) (text : List UInt8) :
    ∃ added, (buffer.printNumbers text).data = buffer.data ++ added := by
  unfold CharBuffer.printNumbers
  dsimp only
  split
  · exact ⟨_, by rw [allocate_data, allocate_data]⟩
  · exact ⟨_, by rw [allocate_data]⟩

theorem Shows.printLineNumbers {init : List Line} {last : Line}
    (shows : Shows (init ++ [last]) buffers) (width oldLineNumber newLineNumber : Nat) :
    ∃ text, Shows (init ++ [{ last with text := last.text ++ text }])
      (Dwdiff.printLineNumbers true width oldLineNumber newLineNumber buffers) := by
  unfold Dwdiff.printLineNumbers
  dsimp only
  rw [if_neg (by simp)]
  generalize lineNumbersText width oldLineNumber newLineNumber = text
  cases isBuffering : buffers.state.buffers with
  | true =>
    obtain ⟨added, isAdded⟩ := printNumbers_data buffers.current text
    refine ⟨added, ?_⟩
    have stored := shows.store isAdded
    rw [Buffers.store, isBuffering] at stored
    exact stored
  | false =>
    refine ⟨text, ?_⟩
    have stored := @Shows.store _ _ _ _ shows ⟨buffers.current.data ++ text, 0⟩ text rfl
    rw [Buffers.store, isBuffering] at stored
    exact stored

/-- A call that goes through the buffers adds to its line. -/
theorem Shows.perform {page : Page} (shows : Shows page.lines buffers) (width : Nat)
    {emission : Emission} (buffered : ∀ string, emission ≠ .puts string) :
    ∃ text, emission.Contributes text ∧
      Shows (page.add (emission, text)).lines (buffers.perform true width emission) := by
  cases emission with
  | addchar c common =>
    refine ⟨[c], rfl, ?_⟩
    rw [Page.lines_add]
    simp only [Emission.endsLine, Emission.hits, beq_iff_eq]
    exact shows.addchar c common
  | writeString string =>
    refine ⟨string, rfl, ?_⟩
    simp only [Page.lines_add, Emission.hits, Bool.or_false]
    exact shows.writeString string
  | printLineNumbers oldLineNumber newLineNumber =>
    obtain ⟨text, added⟩ := shows.printLineNumbers width oldLineNumber newLineNumber
    refine ⟨text, trivial, ?_⟩
    simp only [Page.lines_add, Emission.hits, Bool.or_false]
    exact added
  | puts string => exact absurd rfl (buffered string)

/-- What a call writes does not depend on what was written before. -/
theorem perform_appends (buffers : Buffers contextLines) (width : Nat) (emission : Emission) :
    ∃ added, ∀ output, { buffers with output := output }.perform true width emission =
      { buffers.perform true width emission with output := output ++ added } := by
  have moved : ∀ output, { buffers with output := output }.perform true width emission =
      ({ buffers with output := [] }.perform true width emission).behind output := by
    intro output
    rw [← perform_behind, Buffers.behind, List.append_nil]
  refine ⟨({ buffers with output := [] }.perform true width emission).output, fun output => ?_⟩
  rw [moved output, show buffers.perform true width emission = _ from moved buffers.output]
  rfl

/-- The output is that of the reference, but for the strings that are written past the buffers. -/
structure Displays (contextLines : Nat) (calls : List (Emission × List UInt8))
    (output : List UInt8) : Prop where
  within : (reference contextLines (pageOf calls).lines).Sublist output
  all : (∀ call ∈ calls, ∀ string, call.1 ≠ .puts string) →
    reference contextLines (pageOf calls).lines = output

/-- The machine shows the lines of the calls, with another output. -/
structure ShowsBehind (calls : List (Emission × List UInt8)) (buffers : Buffers contextLines) :
    Prop where
  contributes : ∀ call ∈ calls, call.1.Contributes call.2
  shows : Shows (pageOf calls).lines
    { buffers with output := reference contextLines (pageOf calls).lines }
  displays : Displays contextLines calls buffers.output

theorem ShowsBehind.perform (behind : ShowsBehind calls buffers) (width : Nat)
    (emission : Emission) :
    ∃ text, ShowsBehind (calls ++ [(emission, text)]) (buffers.perform true width emission) := by
  by_cases buffered : ∀ string, emission ≠ .puts string
  · obtain ⟨text, contributes, shows⟩ := behind.shows.perform width buffered
    obtain ⟨added, same⟩ := perform_appends buffers width emission
    have isOutput : (buffers.perform true width emission).output = buffers.output ++ added :=
      congrArg Buffers.output (same buffers.output)
    rw [same, ← pageOf_snoc] at shows
    have isReference := shows.output
    refine ⟨text, ?_, ?_, ?_, fun all => ?_⟩
    · exact List.forall_mem_append.mpr
        ⟨behind.contributes, List.forall_mem_singleton.mpr contributes⟩
    · rw [← isReference]
      exact shows
    · rw [← isReference, isOutput]
      exact behind.displays.within.append_right added
    · rw [← isReference, isOutput, behind.displays.all (List.forall_mem_append.mp all).1]
  · push Not at buffered
    obtain ⟨string, rfl⟩ := buffered
    have same : (pageOf (calls ++ [(.puts string, [])])).lines = (pageOf calls).lines := by
      rw [pageOf_snoc, Page.lines_add]
      simp [Emission.hits, Emission.endsLine, Page.lines]
    refine ⟨[], ?_, ?_, ?_, fun all => ?_⟩
    · exact List.forall_mem_append.mpr ⟨behind.contributes, List.forall_mem_singleton.mpr rfl⟩
    · rw [same]
      exact behind.shows
    · rw [same]
      exact behind.displays.within.trans (List.sublist_append_left _ _)
    · exact absurd rfl (all (.puts string, []) (by simp) string)

/-- Every sequence of calls is displayed by its lines. -/
theorem performAll_displays (contextLines width : Nat) (emissions : List Emission) :
    ∃ calls : List (Emission × List UInt8), calls.map Prod.fst = emissions ∧
      ShowsBehind calls ((initialBuffers contextLines).performAll true width emissions) := by
  induction emissions using List.reverseRecOn with
  | nil =>
    have output := (@shows_initial contextLines).output
    refine ⟨[], rfl, nofun, ?_, ?_, fun _ => output.symm⟩
    · exact output ▸ shows_initial
    · exact output ▸ List.Sublist.refl _
  | append_singleton emissions emission inductionHypothesis =>
    obtain ⟨calls, rfl, behind⟩ := inductionHypothesis
    obtain ⟨text, behind⟩ := behind.perform width emission
    refine ⟨calls ++ [(emission, text)], by simp, ?_⟩
    rw [Buffers.performAll, List.foldl_concat]
    exact behind

end Machine

/-! ### Changes -/

section Changes

variable {options : Options}

theorem lineEnds_entryIf (condition : Bool) (label : Label) {emission : Emission}
    (stays : emission.endsLine = false) :
    lineEnds ((entryIf condition label emission).map Prod.snd) = 0 := by
  cases condition <;> simp [entryIf, lineEnds, stays]

/-- Up to its start marker a change stays on the line. -/
theorem lineEnds_opening (side : Side) (screen : Screen) :
    lineEnds ((commonLineEntries options screen ++ startEntries options side).map Prod.snd) =
      0 := by
  have starts : lineEnds ((startEntries options side).map Prod.snd) = 0 := by
    unfold startEntries
    split
    · rw [List.map_append, lineEnds_append, lineEnds_entryIf _ _ rfl]
      rfl
    · rfl
  rw [List.map_append, lineEnds_append, commonLineEntries, lineEnds_entryIf _ _ rfl, starts]

/-- Behind its words a change stays on the line. -/
theorem lineEnds_closing (side : Side) (screen : Screen) :
    lineEnds ((closingEntries options side screen).map Prod.snd) = 0 := by
  have stops : lineEnds ((stopEntries options side).map Prod.snd) = 0 := by
    unfold stopEntries
    split
    · rw [List.map_cons, ← List.singleton_append, lineEnds_append, lineEnds_entryIf _ _ rfl]
      rfl
    · rfl
  have numbers : lineEnds ((if options.lineNumbers ≠ 0 then
      entryIf options.colorMode .other (.writeString resetColor) ++
        [(.other, .printLineNumbers screen.oldLineNumber screen.newLineNumber)]
      else []).map Prod.snd) = 0 := by
    split
    · rw [List.map_append, lineEnds_append, lineEnds_entryIf _ _ rfl]
      rfl
    · rfl
  have changed : lineEnds ((changedLineEntries options side screen).map Prod.snd) = 0 := by
    unfold changedLineEntries
    split
    · rw [List.map_append, lineEnds_append, numbers]
      split
      · rw [List.map_append, lineEnds_append, lineEnds_entryIf _ _ rfl, lineEnds_entryIf _ _ rfl]
      · rfl
    · rfl
  rw [closingEntries, List.map_append, lineEnds_append, changed, stops]

/-- A change of a run, with the screens in front of it and behind its words. -/
structure ChangeAt (options : Options) (start : Screen) where
  first : List Scene
  side : Side
  acts : List ChangeAct
  screen : Screen
  final : Screen
  enacts : Enacts options start first screen
  folds : acts.foldlM (ChangeAct.perform options side) (raiseCurtain options side screen) =
    .ok final

variable {start : Screen} (change : ChangeAt options start)

/-- The calls in front of the change. -/
def ChangeAt.before : List Emission := (entries options start change.first).map Prod.snd

/-- The calls up to the start marker. -/
def ChangeAt.opening : List Emission :=
  (commonLineEntries options change.screen ++ startEntries options change.side).map Prod.snd

/-- The calls up to the last one for the words. -/
def ChangeAt.words : List Emission :=
  (wordsEntries options change.side change.screen change.acts).map Prod.snd

/-- The calls behind the words, up to the stop marker. -/
def ChangeAt.closing : List Emission :=
  (closingEntries options change.side change.final).map Prod.snd

/-- If the line of one of the calls up to the start marker is written, so are the lines of all calls
from the words to the stop marker. A call is given by those in front of it. -/
def ChangeAt.KeepsMarkers (contextLines : Nat) (lines : List Line) : Prop :=
  ∀ opened ended, opened <+: change.opening → ended <+: change.closing →
    isNear contextLines lines (lineEnds (change.before ++ opened)) = true →
      isNear contextLines lines (lineEnds (change.before ++ change.words ++ ended)) = true

/-- The changes of a run are where its scenes say. -/
theorem exists_change {scenes : List Scene} {after : Screen}
    (enacts : Enacts options start scenes after) {first rest : List Scene} {side : Side}
    {acts : List ChangeAct} (isScenes : scenes = first ++ .change side acts :: rest) :
    ∃ change : ChangeAt options start, change.first = first ∧ change.side = side ∧
      change.acts = acts ∧ ∃ behind, (entries options start scenes).map Prod.snd =
        change.before ++ change.words ++ (change.closing ++ behind) := by
  rw [isScenes, Enacts, List.foldlM_append] at enacts
  obtain ⟨screen, enacts', enacts⟩ := bind_eq_ok.mp enacts
  obtain ⟨next, performs, -⟩ := foldlM_cons_ok enacts
  obtain ⟨final, folds, -⟩ := bind_eq_ok.mp performs
  refine ⟨⟨first, side, acts, screen, final, enacts', folds⟩, rfl, rfl, rfl,
    (entries options next rest).map Prod.snd, ?_⟩
  rw [isScenes, entries, trace_append enacts', trace_cons performs, Scene.entries, folds]
  simp only [List.map_append, List.append_assoc]
  rfl

/-- The calls for the words of a change are among those of the run. -/
theorem ChangeAt.words_infix {scenes : List Scene} {after : Screen}
    (enacts : Enacts options start scenes after) {rest : List Scene}
    (isScenes : scenes = change.first ++ .change change.side change.acts :: rest) :
    change.words <:+: (entries options start scenes).map Prod.snd := by
  obtain ⟨other, sameFirst, sameSide, sameActs, behind, isEntries⟩ := exists_change enacts isScenes
  have sameScreen : other.screen = change.screen := by
    have enacts := other.enacts
    rw [sameFirst] at enacts
    exact Except.ok.inj (enacts.symm.trans change.enacts)
  have sameWords : other.words = change.words := by
    rw [ChangeAt.words, ChangeAt.words, sameSide, sameScreen, sameActs]
  exact ⟨other.before, other.closing ++ behind, by rw [isEntries, sameWords]⟩

theorem ChangeAt.keepsMarkers {behind : List Emission}
    (isCalls : calls.map Prod.fst = change.before ++ change.words ++ (change.closing ++ behind))
    (isClosed : closed contextLines change.words = true) :
    change.KeepsMarkers contextLines (pageOf calls).lines := by
  intro opened ended isOpened isEnded isNear
  have sameLine {calls part : List Emission} (oneLine : lineEnds calls = 0)
      (isPart : part <+: calls) : lineEnds part = 0 :=
    Nat.eq_zero_of_le_zero (oneLine ▸ isPart.sublist.countP_le)
  rw [isNear_pageOf, isCalls, lineEnds_append, sameLine (lineEnds_opening _ _) isOpened] at isNear
  rw [isNear_pageOf, isCalls, lineEnds_append, sameLine (lineEnds_closing _ _) isEnded]
  exact closed_iff_whole.mp isClosed change.before (change.closing ++ behind) isNear

/-- In every run with context lines, a change whose calls are closed keeps its stop marker if its
start marker is written. -/
theorem closed_change_keeps_markers (contextLines : Nat) {locale : Locale} {old new : List UInt8}
    {charData : CharData} {executed : Executed}
    (returns : prepareAndExecuteDiff options locale old new charData initialPrinting =
      .ok executed) :
    ∃ scenes taken calls, Plays options locale initialPrinting scenes taken executed.state ∧
      calls.map Prod.fst = executed.state.screen.output ∧
      executed.state.screen.output = (entries options initialScreen scenes).map Prod.snd ∧
      (∀ call ∈ calls, call.1.Contributes call.2) ∧
      Displays contextLines calls ((initialBuffers contextLines).performAll true options.lineNumbers
        executed.state.screen.output).output ∧
      ∀ first side acts rest, scenes = first ++ .change side acts :: rest →
        ∃ change : ChangeAt options initialScreen, change.first = first ∧ change.side = side ∧
          change.acts = acts ∧
          (closed contextLines change.words = true →
            change.KeepsMarkers contextLines (pageOf calls).lines) := by
  obtain ⟨scenes, taken, plays⟩ :=
    (prepareAndExecuteDiff_played old new charData initialPrinting).of_ok returns
  have isOutput :
      executed.state.screen.output = (entries options initialScreen scenes).map Prod.snd :=
    plays.screen.logs
  obtain ⟨calls, isCalls, behind⟩ :=
    performAll_displays contextLines options.lineNumbers executed.state.screen.output
  refine ⟨scenes, taken, calls, plays, isCalls, isOutput, behind.contributes, behind.displays,
    fun first side acts rest isScenes => ?_⟩
  obtain ⟨change, isFirst, isSide, areActs, behind, isEntries⟩ :=
    exists_change plays.screen isScenes
  refine ⟨change, isFirst, isSide, areActs, fun isClosed => ?_⟩
  exact change.keepsMarkers (isCalls.trans (isOutput.trans isEntries)) isClosed

end Changes

/-- Words are separated by blanks only, so a newline belongs to a word. -/
def blankSeparated : Options :=
  { defaultOptions with whitespace := blankSet }

theorem closed_change_keeps_markers_blanks :
    ∃ executed, prepareAndExecuteDiff blankSeparated cLocale "a b\n".toUTF8.toList
        "a c\n".toUTF8.toList ⟨0, [], [], []⟩ initialPrinting = .ok executed ∧
      ∃ scenes taken calls,
        Plays blankSeparated cLocale initialPrinting scenes taken executed.state ∧
        calls.map Prod.fst = executed.state.screen.output ∧
        ∀ first side acts rest, scenes = first ++ .change side acts :: rest →
          ∃ change : ChangeAt blankSeparated initialScreen, change.first = first ∧
            change.side = side ∧ change.acts = acts ∧
            change.KeepsMarkers 1 (pageOf calls).lines := by
  -- Every stretch of the calls is closed.
  obtain ⟨executed, returns, areClosed⟩ := @exists_of_check _ _
    (prepareAndExecuteDiff blankSeparated cLocale "a b\n".toUTF8.toList "a c\n".toUTF8.toList
      ⟨0, [], [], []⟩ initialPrinting) (fun executed => executed.state.screen.output.tails.all
        fun tail => tail.inits.all (closed 1)) (by decide +kernel)
  obtain ⟨scenes, taken, calls, plays, isCalls, isOutput, -, -, keeps⟩ :=
    closed_change_keeps_markers 1 returns
  refine ⟨executed, returns, scenes, taken, calls, plays, isCalls,
    fun first side acts rest isScenes => ?_⟩
  obtain ⟨change, rfl, rfl, rfl, isKept⟩ := keeps first side acts rest isScenes
  obtain ⟨before, behind, isWords⟩ := change.words_infix plays.screen isScenes
  refine ⟨change, rfl, rfl, rfl, isKept ?_⟩
  rw [isOutput, ← isWords, List.append_assoc] at areClosed
  exact List.all_eq_true.mp (List.all_eq_true.mp areClosed _ ((List.mem_tails _ _).mpr
    ⟨before, rfl⟩)) _ ((List.mem_inits _ _).mpr ⟨behind, rfl⟩)

/-- A changed word ends with a newline, and there are no context lines: the line behind the word is
not written, and with it the last stop marker. -/
theorem stopMarker_dropped :
    outputs blankSeparated "a b\n".toUTF8.toList "a c\n".toUTF8.toList =
      .ok ("a [-b\n-] \x7b+c\n+\x7d".toUTF8.toList, "a [-b\n-] \x7b+c\n".toUTF8.toList) := by
  decide +kernel

end Dwdiff
