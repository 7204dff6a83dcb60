/-
This file lifts the description of the files from single pieces to the steps of
a run: a common word of both files, and the words of a change. Claims about what
is printed come with it as a parameter: whatever the calls for single pieces
uphold is upheld by the steps, so that the loops are gone through only once.
-/

import Dwdiff.Run
import Dwdiff.Taking

namespace Dwdiff

open Diff Outcome
open Failure (OfText)

variable {side : Side} {track : Track} {modes : List Mode}

/-- Whether the changed words of a file are printed. -/
def shows (options : Options) : Side → Bool
  | .old => options.printDeleted
  | .new => options.printAdded

/-- The mode of the changed words of a file. -/
def changedMode : Side → Mode
  | .old => .del
  | .new => .add

/-- The mode of the common words of a file. -/
def commonMode : Side → Mode
  | .old => .oldCommon
  | .new => .common

/-- The calls for a common word. -/
def commonCalls : List (Side × Mode) := [(.new, .common), (.old, .oldCommon)]

/-- No whitespace was read ahead. -/
def Track.Fresh (track : Track) : Prop := track.taken = false ∧ track.buffered = false

theorem Track.Fresh.eq (fresh : track.Fresh) :
    { track with taken := false, buffered := false } = track := by
  obtain ⟨modes, taken, buffered, printed⟩ := track
  obtain ⟨isTaken, isBuffered⟩ := fresh
  dsimp only at isTaken isBuffered
  rw [isTaken, isBuffered]

/-- A value for each file. -/
def pick {Value : Type} (old new : Value) : Side → Value
  | .old => old
  | .new => new

@[simp] theorem update_pick_old {Value : Type} (old new value : Value) :
    Function.update (pick old new) .old value = pick value new := by
  funext side
  cases side <;> rfl

@[simp] theorem update_pick_new {Value : Type} (old new value : Value) :
    Function.update (pick old new) .new value = pick old value := by
  funext side
  cases side <;> rfl

section Words

variable (options : Options) (locale : Locale) (texts : Side → Text) (hashMax : Nat)

/-- A property of the whole state between changes, and one inside of them, that the calls for single
pieces uphold, where the files are as described. -/
structure Upholds (extra during : Printing → Prop) : Prop where
  common : ∀ {tracks calls state}, Represents options locale texts hashMax tracks calls state →
    (∀ side, (tracks side).Fresh) →
    (∀ side, (tracks side).modes.length ≤ (texts side).ids.length) →
    (texts .old).ids[(tracks .old).modes.length]? =
      (texts .new).ids[(tracks .new).modes.length]? →
    extra state →
    Meets OfText extra (handleCommonWord options locale options.printCommon state)
  prepare : ∀ {tracks calls state}, Represents options locale texts hashMax tracks calls state →
    (∀ side, (tracks side).Fresh) →
    (∀ side, (tracks side).modes.length < (texts side).ids.length) →
    options.wdiffOutput = false → extra state →
    Meets OfText (fun result => during result.2) (prepareWhitespace options locale state)
  enter : ∀ {state}, extra state → during state
  whitespace : ∀ {tracks calls state} (side : Side) (first : Bool),
    Represents options locale texts hashMax tracks calls state →
    (tracks side).taken = (tracks side).buffered →
    (tracks side).modes.length < (texts side).ids.length → during state →
    Meets OfText during (handleNextWhitespace options locale side (shows options side)
      (if first then commonMode side else changedMode side) state)
  token : ∀ {tracks calls state} (side : Side),
    Represents options locale texts hashMax tracks calls state →
    (tracks side).taken = true → (tracks side).buffered = false →
    (tracks side).modes.length < (texts side).ids.length → during state →
    Meets OfText during (handleNextToken options locale side (shows options side)
      (changedMode side) state)
  advance : ∀ {state} (side : Side), (extra state → extra (state.advance side)) ∧
    (during state → during (state.advance side))
  start : ∀ {state} (side : Side), shows options side = true → during state →
    during (state.onScreen fun screen =>
      startWords options (changedMode side) (doPostLinefeed options .common screen))
  stop : ∀ {state} (side : Side), shows options side = true → during state →
    during (state.onScreen fun screen =>
      stopWords options (changedMode side) (doPostLinefeed options (changedMode side) screen))
  finish : ∀ {tracks calls state} (command : Command) (change : Change),
    Represents options locale texts hashMax tracks calls state → (∀ side, (tracks side).Fresh) →
    (∀ side, (tracks side).printed = (tracks side).modes.length) →
    (command ≠ .del → (tracks .new).modes ≠ []) → during state →
    extra (finishChange options command change state)
  stepped : ∀ {tracks calls state}, Represents options locale texts hashMax tracks calls state →
    (∀ side, (tracks side).Fresh) →
    (∀ side, (tracks side).printed = (tracks side).modes.length) → extra state →
    extra (state.step .common)
  ended : ∀ {state}, extra state → extra (state.step .ending)
  marked : ∀ {state}, options.needMarkers = true → extra state →
    extra (state.onScreen fun screen => screen.emit (.puts markerLine))
  noticed : ∀ {state}, extra state → extra { state with differences := 1 }

variable {options : Options} {locale : Locale} {texts : Side → Text} {hashMax : Nat}
  {tracks : Side → Track} {calls : List (Side × Mode)} {state : Printing}
  {extra during : Printing → Prop}

/-- The description with the property. -/
def Stands (options : Options) (locale : Locale) (texts : Side → Text) (hashMax : Nat)
    (extra : Printing → Prop) (tracks : Side → Track) (calls : List (Side × Mode))
    (state : Printing) : Prop :=
  Represents options locale texts hashMax tracks calls state ∧ extra state

/-- A state with the same files and pieces taken. -/
theorem Represents.congr {state' : Printing}
    (represents : Represents options locale texts hashMax tracks calls state)
    (isFile : state'.file = state.file) (isEvents : state'.events = state.events)
    (isHashMax : state'.baseHashMax = state.baseHashMax)
    (isHashtable : state'.hashtable = state.hashtable) :
    Represents options locale texts hashMax tracks calls state' where
  files := by
    rw [isFile, isEvents]
    exact represents.files
  calls := by rw [isEvents, represents.calls]
  hashMax := isHashMax.trans represents.hashMax
  hashtable := isHashtable.trans represents.hashtable

/-- A word of each file is handled as common. -/
theorem handleCommonWord_represents
    (represents : Represents options locale texts hashMax tracks calls state)
    (fresh : ∀ side, (tracks side).Fresh)
    (le : ∀ side, (tracks side).modes.length ≤ (texts side).ids.length) (print : Bool) :
    Meets OfText (Represents options locale texts hashMax
        (fun side => { tracks side with modes := (tracks side).modes ++ [commonMode side] })
        (calls ++ commonCalls))
      (handleCommonWord options locale print state) := by
  unfold handleCommonWord
  refine (handleSynchronizedNextWhitespace_represents represents
    (fun side => (fresh side).1.trans (fresh side).2.symm) le _).bind fun state' read => ?_
  have read' : Represents options locale texts hashMax
      (fun side => { tracks side with taken := true }) calls
      { state' with lastWasDelete := false } := read.congr rfl rfl rfl rfl
  refine (handleNextToken_represents read' rfl rfl (le .new) print .common).bind
    fun state'' readNew => ?_
  refine (handleNextToken_represents readNew (Function.update_of_ne (by nofun) _ _) rfl (le .old)
    false .oldCommon).mono fun final readOld => ?_
  have both : Function.update (Function.update (fun side => { tracks side with taken := true })
      Side.new { tracks .new with modes := (tracks .new).modes ++ [.common], taken := false })
      Side.old { tracks .old with modes := (tracks .old).modes ++ [.oldCommon], taken := false } =
      fun side => { tracks side with modes := (tracks side).modes ++ [commonMode side] } := by
    funext side
    have isFresh := (fresh side).1
    cases side <;> simp [Function.update, commonMode, isFresh]
  rw [List.append_assoc] at readOld
  exact both ▸ readOld

/-- The whitespace before a change. Each run is still to be printed, or in the buffer. -/
theorem prepareWhitespace_represents
    (represents : Represents options locale texts hashMax tracks calls state)
    (fresh : ∀ side, (tracks side).Fresh)
    (below : ∀ side, (tracks side).modes.length < (texts side).ids.length) :
    Meets OfText (fun result => ∃ loaded : Side → Bool,
        Represents options locale texts hashMax
          (fun side => { tracks side with taken := loaded side, buffered := loaded side }) calls
          result.2)
      (prepareWhitespace options locale state) := by
  have le : ∀ side, (tracks side).modes.length ≤ (texts side).ids.length :=
    fun side => Nat.le_of_lt (below side)
  unfold prepareWhitespace
  refine (loadNextWhitespace_represents represents rfl (fresh .old).1 (le .old)).bind ?_
  rintro ⟨oldNewline, state'⟩ loadedOld
  have onlyOld : Function.update tracks Side.old
      { tracks .old with taken := true, buffered := true } =
      fun side => { tracks side with taken := pick true false side,
                                     buffered := pick true false side } := by
    funext side
    cases side with
    | old => rfl
    | new => exact (fresh .new).eq.symm
  cases oldNewline with
  | false => exact ⟨_, onlyOld ▸ loadedOld⟩
  | true =>
    refine (loadNextWhitespace_represents loadedOld (Function.update_of_ne (by nofun) _ _)
      (fresh .new).1 (le .new)).bind ?_
    rintro ⟨newNewline, state''⟩ loadedNew
    have both : Function.update (Function.update tracks Side.old
        { tracks .old with taken := true, buffered := true }) Side.new
        { tracks .new with taken := true, buffered := true } =
        fun side => { tracks side with taken := true, buffered := true } := by
      funext side
      cases side <;> rfl
    have loaded : Represents options locale texts hashMax
        (fun side => { tracks side with taken := true, buffered := true }) calls state'' :=
      both ▸ loadedNew
    cases newNewline with
    | false => exact ⟨fun _ => true, loaded⟩
    | true =>
      refine (handleSynchronizedNextWhitespace_represents loaded (fun _ => rfl) le _).bind
        fun final read => ⟨fun _ => true, ?_, read.calls, read.hashMax, read.hashtable⟩
      intro side
      have isAt := read.files side
      cases side <;>
        exact ⟨isAt.ids, isAt.tokens, isAt.whitespace, isAt.buffered, isAt.printed, isAt.isTold⟩

/-! ### The words of a change -/

section Stands

theorem Stands.advance {property : Printing → Prop}
    (stands : Stands options locale texts hashMax property tracks calls state) (side : Side)
    (isTrack : tracks side = track) (kept : property state → property (state.advance side)) :
    Stands options locale texts hashMax property
      (Function.update tracks side { track with printed := track.printed + 1 }) calls
      (state.advance side) :=
  ⟨stands.1.advance isTrack, kept stands.2⟩

variable (upholds : Upholds options locale texts hashMax extra during)

include upholds

theorem handleCommonWord_stands
    (stands : Stands options locale texts hashMax extra tracks calls state)
    (fresh : ∀ side, (tracks side).Fresh)
    (le : ∀ side, (tracks side).modes.length ≤ (texts side).ids.length)
    (same : (texts .old).ids[(tracks .old).modes.length]? =
      (texts .new).ids[(tracks .new).modes.length]?) :
    Meets OfText (Stands options locale texts hashMax extra
        (fun side => { tracks side with modes := (tracks side).modes ++ [commonMode side] })
        (calls ++ commonCalls))
      (handleCommonWord options locale options.printCommon state) :=
  (handleCommonWord_represents stands.1 fresh le _).and
    (upholds.common stands.1 fresh le same stands.2)

theorem loadWhitespace_stands
    (stands : Stands options locale texts hashMax extra tracks calls state)
    (fresh : ∀ side, (tracks side).Fresh) {command : Command}
    (below : command = .change → ∀ side, (tracks side).modes.length < (texts side).ids.length) :
    Meets OfText (fun result => ∃ loaded : Side → Bool,
        (command ≠ .change → (∀ side, loaded side = false) ∧ result.1 = false) ∧
        Stands options locale texts hashMax during
          (fun side => { tracks side with taken := loaded side, buffered := loaded side }) calls
          result.2)
      (loadWhitespace options locale command state) := by
  unfold loadWhitespace
  split
  · next loads =>
    rw [Bool.and_eq_true, beq_iff_eq, Bool.not_eq_true'] at loads
    refine ((prepareWhitespace_represents stands.1 fresh (below loads.1)).and
      (upholds.prepare stands.1 fresh (below loads.1) loads.2 stands.2)).mono ?_
    rintro result ⟨⟨loaded, read⟩, kept⟩
    exact ⟨loaded, fun other => absurd loads.1 other, read, kept⟩
  · refine ⟨fun _ => false, fun _ => ⟨fun _ => rfl, rfl⟩, ?_⟩
    have same : (fun side => { tracks side with taken := false, buffered := false }) = tracks :=
      funext fun side => (fresh side).eq
    rw [same]
    exact ⟨stands.1, upholds.enter stands.2⟩

variable (stands : Stands options locale texts hashMax during tracks calls state)

include stands

theorem handleNextWhitespace_stands (isTrack : tracks side = track)
    (loaded : track.taken = track.buffered) (below : track.modes.length < (texts side).ids.length)
    (first : Bool) :
    Meets OfText (Stands options locale texts hashMax during
        (Function.update tracks side { track with taken := true, buffered := false }) calls)
      (handleNextWhitespace options locale side (shows options side)
        (if first then commonMode side else changedMode side) state) := by
  subst isTrack
  exact (handleNextWhitespace_represents stands.1 rfl loaded (Nat.le_of_lt below) _ _).and
    (upholds.whitespace side first stands.1 loaded below stands.2)

theorem handleNextToken_stands (isTrack : tracks side = track) (isTaken : track.taken = true)
    (unused : track.buffered = false) (below : track.modes.length < (texts side).ids.length) :
    Meets OfText (Stands options locale texts hashMax during
        (Function.update tracks side
          { track with modes := track.modes ++ [changedMode side], taken := false })
        (calls ++ [(side, changedMode side)]))
      (handleNextToken options locale side (shows options side) (changedMode side) state) := by
  subst isTrack
  exact (handleNextToken_represents stands.1 rfl isTaken (Nat.le_of_lt below) _ _).and
    (upholds.token side stands.1 isTaken unused below stands.2)

theorem handleOneWord_stands {printed : Int}
    (isTrack : tracks side = ⟨modes, false, false, printed⟩)
    (below : modes.length < (texts side).ids.length) :
    Meets OfText (Stands options locale texts hashMax during
        (Function.update tracks side ⟨modes ++ [changedMode side], false, false, printed + 1⟩)
        (calls ++ [(side, changedMode side)]))
      (handleOneWord options locale side (shows options side) (changedMode side) state) := by
  refine (handleNextWhitespace_stands upholds stands isTrack rfl below false).bind
    fun state' read => ?_
  refine (handleNextToken_stands upholds read (Function.update_self _ _ _) rfl rfl below).bind
    fun state'' read' => ?_
  have advanced := read'.advance side (Function.update_self _ _ _) (upholds.advance side).2
  rw [Function.update_idem, Function.update_idem] at advanced
  exact advanced

omit stands in
/-- The loop of `handleWord`. The induction is on the number of words that are left. -/
theorem handleWord_stands {count : Nat} :
    ∀ {tracks : Side → Track} {calls : List (Side × Mode)} {state : Printing} {side : Side}
      {modes : List Mode} {printed : Int} {fuel : Nat},
      Stands options locale texts hashMax during tracks calls state →
      tracks side = ⟨modes, false, false, printed⟩ →
      modes.length + count ≤ (texts side).ids.length → count ≤ fuel →
      Meets OfText (Stands options locale texts hashMax during
          (Function.update tracks side ⟨modes ++ List.replicate count (changedMode side), false,
            false, printed + count⟩)
          (calls ++ List.replicate count (side, changedMode side)))
        (handleWord options locale side (shows options side) (changedMode side) (printed + count)
          fuel state) := by
  induction count with
  | zero =>
    intro tracks calls state side modes printed fuel stands isTrack below enough
    have isPrinted := (stands.1.files side).printed
    rw [isTrack] at isPrinted
    have finished : ¬ (state.file side).lastPrinted < printed + (0 : Nat) := by
      rw [isPrinted]
      simp
    rw [List.replicate_zero, List.replicate_zero, List.append_nil, List.append_nil, Nat.cast_zero,
      add_zero, ← isTrack, Function.update_eq_self]
    rw [Nat.cast_zero, add_zero] at finished
    cases fuel with
    | zero | succ fuel =>
      rw [handleWord, if_neg finished]
      exact stands
  | succ count inductionHypothesis =>
    intro tracks calls state side modes printed fuel stands isTrack below enough
    obtain ⟨fuel, rfl⟩ := exists_round enough
    have isPrinted := (stands.1.files side).printed
    rw [isTrack] at isPrinted
    have more : (state.file side).lastPrinted < printed + (count + 1 : Nat) := by
      rw [isPrinted]
      dsimp only
      omega
    rw [handleWord, if_pos more]
    refine (handleOneWord_stands upholds stands isTrack (by omega)).bind fun state' read => ?_
    have rest := @inductionHypothesis _ _ _ side _ _ fuel read (Function.update_self _ _ _)
      (by rw [List.length_append, List.length_singleton]; omega) (by omega)
    rw [Function.update_idem, List.append_assoc, List.append_assoc, List.singleton_append,
      List.singleton_append, ← List.replicate_succ, ← List.replicate_succ,
      show printed + 1 + (count : Int) = printed + (count + 1 : Nat) by push_cast; ring] at rest
    exact rest

/-- `printWords` handles `count` words, at least one, of a file whose whitespace may be loaded. -/
theorem printWords_stands {loaded : Bool} {start : Int}
    (isTrack : tracks side = ⟨modes, loaded, loaded, start⟩) {count : Nat}
    (below : modes.length + (count + 1) ≤ (texts side).ids.length) :
    Meets OfText (Stands options locale texts hashMax during
        (Function.update tracks side ⟨modes ++ List.replicate (count + 1) (changedMode side), false,
          false, start + (count + 1 : Nat)⟩)
        (calls ++ List.replicate (count + 1) (side, changedMode side)))
      (printWords options locale start (count + 1 : Nat) side (shows options side)
        (changedMode side) state) := by
  have isPrinted := (stands.1.files side).printed
  rw [isTrack] at isPrinted
  have plusCommon : (changedMode side).plusCommon = if true then commonMode side
      else changedMode side := by cases side <;> rfl
  unfold printWords
  rw [assert_true (by rw [isPrinted]; exact beq_self_eq_true start), ok_bind, plusCommon]
  refine (handleNextWhitespace_stands upholds stands isTrack rfl (by dsimp only; omega)
    true).bind fun state' read => ?_
  -- The markers stand between the whitespace and the first word.
  have started : Stands options locale texts hashMax during
      (Function.update tracks side ⟨modes, true, false, start⟩) calls
      (state'.onScreen fun screen => if shows options side then
        startWords options (changedMode side) (doPostLinefeed options .common screen)
        else screen) := by
    cases isShown : shows options side with
    | true => exact ⟨read.1.onScreen _, upholds.start side isShown read.2⟩
    | false => exact ⟨read.1.onScreen _, read.2⟩
  refine (handleNextToken_stands upholds started (Function.update_self _ _ _) rfl rfl
    (by dsimp only; omega)).bind fun state'' read' => ?_
  have advanced := read'.advance side (Function.update_self _ _ _) (upholds.advance side).2
  rw [Function.update_idem, Function.update_idem] at advanced
  have rest := @handleWord_stands _ _ _ _ _ _ upholds count _ _ _ side _ _
    ((count + 1 : Nat) : Int).toNat advanced (Function.update_self _ _ _)
    (by dsimp only; rw [List.length_append, List.length_singleton]; omega) (by omega)
  rw [Function.update_idem] at rest
  dsimp only at rest
  rw [List.append_assoc, List.append_assoc, List.singleton_append, List.singleton_append,
    ← List.replicate_succ, ← List.replicate_succ,
    show start + 1 + (count : Int) = start + (count + 1 : Nat) by push_cast; ring] at rest
  refine rest.bind fun final read'' => ?_
  cases isShown : shows options side with
  | true => exact ⟨read''.1.onScreen _, upholds.stop side isShown read''.2⟩
  | false => exact ⟨read''.1.onScreen _, read''.2⟩

/-- The same for a number of words as the script has it. -/
theorem printWords_stands_int {loaded : Bool} {start count : Int}
    (isTrack : tracks side = ⟨modes, loaded, loaded, start⟩) (positive : 0 < count)
    (below : modes.length + count ≤ (texts side).ids.length) :
    Meets OfText (Stands options locale texts hashMax during
        (Function.update tracks side ⟨modes ++ List.replicate count.toNat (changedMode side), false,
          false, start + count⟩)
        (calls ++ List.replicate count.toNat (side, changedMode side)))
      (printWords options locale start count side (shows options side) (changedMode side)
        state) := by
  obtain ⟨number, rfl⟩ : ∃ number : Nat, count = (number + 1 : Nat) := ⟨(count - 1).toNat, by omega⟩
  rw [Int.toNat_natCast]
  exact printWords_stands upholds stands isTrack (by omega)

end Stands

/-- The words of a change, in the order of the calls. -/
def changeCalls (reverseDeleteAdd : Bool) (deleted inserted : Nat) : List (Side × Mode) :=
  if reverseDeleteAdd then
    List.replicate inserted (.new, .add) ++ List.replicate deleted (.old, .del)
  else List.replicate deleted (.old, .del) ++ List.replicate inserted (.new, .add)

/-- The tracks behind the words of a change. -/
def behind (modes : Side → List Mode) (change : Change) : Side → Track :=
  pick ⟨modes .old ++ List.replicate change.deleted.toNat .del, false, false,
      change.line0 + change.deleted⟩
    ⟨modes .new ++ List.replicate change.inserted.toNat .add, false, false,
      change.line1 + change.inserted⟩

variable (upholds : Upholds options locale texts hashMax extra during)

include upholds

/-- The words of a change are handled as changed, in the order that was chosen. -/
theorem printChangedWords_stands {modes : Side → List Mode} {loaded : Side → Bool}
    {command : Command} {change : Change}
    (stands : Stands options locale texts hashMax during
      (pick ⟨modes .old, loaded .old, loaded .old, change.line0⟩
        ⟨modes .new, loaded .new, loaded .new, change.line1⟩) calls state)
    (suits : Suits command change) {reverseDeleteAdd : Bool}
    (unloaded : command ≠ .change → (∀ side, loaded side = false) ∧ reverseDeleteAdd = false)
    (below0 : (modes .old).length + (wordChange command change).deleted ≤ (texts .old).ids.length)
    (below1 : (modes .new).length + (wordChange command change).inserted ≤
      (texts .new).ids.length) :
    Meets OfText (Stands options locale texts hashMax during
        (behind modes (wordChange command change))
        (calls ++ changeCalls reverseDeleteAdd (wordChange command change).deleted.toNat
          (wordChange command change).inserted.toNat))
      (printChangedWords options locale reverseDeleteAdd command change state) := by
  unfold printChangedWords
  cases command with
  | add =>
    obtain ⟨none, rfl⟩ := unloaded (by decide)
    refine (printWords_stands_int upholds stands rfl suits below1).mono fun final printed => ?_
    rw [update_pick_new] at printed
    simpa [behind, changeCalls, wordChange, none .old, changedMode] using printed
  | del =>
    obtain ⟨none, rfl⟩ := unloaded (by decide)
    refine (printWords_stands_int upholds stands rfl suits below0).bind fun final printed => ?_
    rw [update_pick_old] at printed
    show Stands options locale texts hashMax during _ _ final
    simpa [behind, changeCalls, wordChange, none .new, changedMode] using printed
  | change =>
    cases reverseDeleteAdd with
    | true =>
      refine (printWords_stands_int upholds stands rfl suits.2 below1).bind fun state' printed => ?_
      rw [update_pick_new] at printed
      refine (printWords_stands_int upholds printed rfl suits.1 below0).mono
        fun final printed' => ?_
      rw [update_pick_old, List.append_assoc] at printed'
      exact printed'
    | false =>
      refine (printWords_stands_int upholds stands rfl suits.1 below0).bind fun state' printed => ?_
      rw [update_pick_old] at printed
      refine (printWords_stands_int upholds printed rfl suits.2 below1).mono
        fun final printed' => ?_
      rw [update_pick_new, List.append_assoc] at printed'
      exact printed'

/-- All that is printed for a change. -/
theorem printDifference_stands {modes : Side → List Mode} {command : Command} {change : Change}
    (stands : Stands options locale texts hashMax extra
      (pick ⟨modes .old, false, false, change.line0⟩ ⟨modes .new, false, false, change.line1⟩)
      calls state)
    (suits : Suits command change) (isStart0 : (modes .old).length = change.line0)
    (isStart1 : (modes .new).length = change.line1)
    (below0 : change.line0 + (wordChange command change).deleted ≤ (texts .old).ids.length)
    (below1 : change.line1 + (wordChange command change).inserted ≤ (texts .new).ids.length) :
    Meets OfText (fun final => ∃ reverseDeleteAdd,
        Stands options locale texts hashMax extra (behind modes (wordChange command change))
          (calls ++ changeCalls reverseDeleteAdd (wordChange command change).deleted.toNat
            (wordChange command change).inserted.toNat) final)
      (printDifference options locale command change state) := by
  have fresh : ∀ side, (pick (⟨modes .old, false, false, change.line0⟩ : Track)
      ⟨modes .new, false, false, change.line1⟩ side).Fresh := by
    intro side
    cases side <;> exact ⟨rfl, rfl⟩
  obtain ⟨deleted, inserted, line0, line1⟩ := suits.words
  unfold printDifference
  refine (loadWhitespace_stands upholds stands fresh ?_).bind ?_
  · rintro rfl side
    simp only [wordChange] at below0 below1
    obtain ⟨deletes, inserts⟩ := suits
    cases side <;> simp only [pick] <;> omega
  · rintro ⟨reverseDeleteAdd, state'⟩ ⟨loaded, unloaded, stands'⟩
    have tracks : (fun side => { pick (⟨modes .old, false, false, change.line0⟩ : Track)
        ⟨modes .new, false, false, change.line1⟩ side with
          taken := loaded side, buffered := loaded side }) =
        pick ⟨modes .old, loaded .old, loaded .old, change.line0⟩
          ⟨modes .new, loaded .new, loaded .new, change.line1⟩ := by
      funext side
      cases side <;> rfl
    refine (printChangedWords_stands upholds (tracks ▸ stands') suits unloaded (by omega)
      (by omega)).bind fun final printed => ⟨reverseDeleteAdd, ?_, ?_⟩
    · exact printed.1.congr rfl rfl rfl rfl
    · refine upholds.finish command change printed.1 ?_ ?_ ?_ printed.2
      · intro side
        cases side <;> exact ⟨rfl, rfl⟩
      · intro side
        cases side with
        | old | new =>
          simp only [behind, pick, List.length_append, List.length_replicate]
          push_cast
          omega
      · intro other
        have inserts : 0 < (wordChange command change).inserted := by
          cases command with
          | add => exact suits
          | del => exact absurd rfl other
          | change => exact suits.2
        have some : (wordChange command change).inserted.toNat ≠ 0 := by omega
        simp [behind, pick, some]

end Words

end Dwdiff
