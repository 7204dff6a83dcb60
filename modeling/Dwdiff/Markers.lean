/-
This file labels the calls that a run makes by what they are for: the start and
stop markers, the characters of inserted and deleted words, those of paragraph
markers, and all others. A marker cannot be told from its string, since the
strings are the user's, so the labels follow the scenes of the run.

It proves when the markers of a run alternate and enclose the changed text, with
markers repeated at line breaks, and when all changed text is passed to `addchar`
as text that is not common.
-/

import Dwdiff.Echo
import Dwdiff.Scenes

namespace Dwdiff

open Outcome

variable {options : Options} {side : Side} {screen after before : Screen} {label : Label}
  {act : ChangeAct} {scenes : List Scene} {common : Bool} {acts : List ChangeAct} {scene : Scene}
  {byte : UInt8}

/-! ### Labels -/

/-- What a call is for. -/
inductive Label where
  | start (side : Side)
  | stop (side : Side)
  | letter (side : Side)
  | paragraph (side : Side)
  | other
  deriving DecidableEq

section Entries

variable (options : Options)

/-- A call that is only made under a condition. -/
def entryIf (condition : Bool) (label : Label) (emission : Emission) : List (Label × Emission) :=
  if condition then [(label, emission)] else []

/-- The calls of `addCharData`. -/
def charEntries (label : Label) (common : Bool) (char : ReadChar) : List (Label × Emission) :=
  char.text.map fun byte => (label, .addchar byte common)

/-- The calls of `doPostLinefeed` outside of changes. -/
def commonLineEntries (screen : Screen) : List (Label × Emission) :=
  entryIf (screen.lastWasLinefeed && options.lineNumbers != 0) .other
    (.printLineNumbers screen.oldLineNumber screen.newLineNumber)

/-- The calls of `doPostLinefeed` inside of a change. -/
def changedLineEntries (side : Side) (screen : Screen) : List (Label × Emission) :=
  if screen.lastWasLinefeed then
    (if options.lineNumbers ≠ 0 then
      entryIf options.colorMode .other (.writeString resetColor) ++
        [(.other, .printLineNumbers screen.oldLineNumber screen.newLineNumber)]
    else []) ++
    if options.needStartStop then
      entryIf options.colorMode .other (.writeString (color options (changedMode side))) ++
        entryIf options.repeatMarkers (.start side)
          (.writeString (startMarker options (changedMode side)))
    else []
  else []

/-- The calls in front of a line break. -/
def breakEntries (side : Side) (char : ReadChar) (screen : Screen) : List (Label × Emission) :=
  if options.needStartStop &&
      (char.equals 13 || (!screen.lastWasCarriageReturn && char.equals 10)) then
    entryIf options.repeatMarkers (.stop side)
        (.writeString (stopMarker options (changedMode side))) ++
      entryIf options.colorMode .other (.writeString eraseLine)
  else []

/-- The calls that strike over a character of a token. -/
def strikeEntries (side : Side) (char : ReadChar) : List (Label × Emission) :=
  if (options.printer || options.less) && !char.equals 10 && !char.equals 13 then
    match side with
    | .old => [(.letter .old, .addchar 0x5F false), (.letter .old, .addchar 8 false)]
    | .new => charEntries (.letter .new) false char ++ [(.letter .new, .addchar 8 false)]
  else []

def ChangeAct.entries (side : Side) (screen : Screen) : ChangeAct → List (Label × Emission)
  | .blank char =>
    changedLineEntries options side screen ++
      (if options.less && !char.equals 10 && !char.equals 13 && side == .old then
        [(.other, .addchar 0x5F false), (.other, .addchar 8 false)]
      else breakEntries options side char screen) ++
      charEntries .other false char
  | .letter char =>
    changedLineEntries options side screen ++ breakEntries options side char screen ++
      strikeEntries options side char ++ charEntries (.letter side) false char
  | .paragraph char =>
    changedLineEntries options side screen ++ charEntries (.paragraph side) (side != .new) char
  | .count _ => []

/-- The calls of `startWords`. -/
def startEntries (side : Side) : List (Label × Emission) :=
  if options.needStartStop then
    entryIf options.colorMode .other (.writeString (color options (changedMode side))) ++
      [(.start side, .writeString (startMarker options (changedMode side)))]
  else []

/-- The calls of `stopWords`. -/
def stopEntries (side : Side) : List (Label × Emission) :=
  if options.needStartStop then
    (.stop side, .writeString (stopMarker options (changedMode side))) ::
      entryIf options.colorMode .other (.writeString resetColor)
  else []

/-- The calls for the words of a change, up to the stop marker. -/
def wordsEntries (side : Side) (screen : Screen) (acts : List ChangeAct) :
    List (Label × Emission) :=
  commonLineEntries options screen ++ startEntries options side ++
    trace (ChangeAct.perform options side) (ChangeAct.entries options side)
      (raiseCurtain options side screen) acts

/-- The calls behind the words of a change. -/
def closingEntries (side : Side) (screen : Screen) : List (Label × Emission) :=
  changedLineEntries options side screen ++ stopEntries options side

def Scene.entries (screen : Screen) : Scene → List (Label × Emission)
  | .common (.text char) => commonLineEntries options screen ++ charEntries .other true char
  | .common (.count _) => []
  | .common (.rule string _) => [(.other, .puts string)]
  | .change side acts =>
    wordsEntries options side screen acts ++
      match acts.foldlM (ChangeAct.perform options side) (raiseCurtain options side screen) with
      | .ok final => closingEntries options side final
      | .error _ => []

/-- The calls of a run. -/
def entries (screen : Screen) (scenes : List Scene) : List (Label × Emission) :=
  trace (Scene.perform options) (Scene.entries options) screen scenes

end Entries

/-! ### The labels are those of the output -/

/-- The calls are added to the output. -/
def Logs (before : Screen) (entries : List (Label × Emission)) (after : Screen) : Prop :=
  after.output = before.output ++ entries.map Prod.snd

theorem Logs.trans {first second third : Screen} {entries more : List (Label × Emission)}
    (logs : Logs first entries second) (logs' : Logs second more third) :
    Logs first (entries ++ more) third := by
  rw [Logs, logs', logs, List.map_append, List.append_assoc]

theorem Logs.refl (screen : Screen) : Logs screen [] screen := (List.append_nil _).symm

theorem emit_logs (screen : Screen) (label : Label) (emission : Emission) :
    Logs screen [(label, emission)] (screen.emit emission) := rfl

theorem emitIf_logs (screen : Screen) (condition : Bool) (label : Label) (emission : Emission) :
    Logs screen (entryIf condition label emission) (screen.emitIf condition emission) := by
  cases condition
  · exact Logs.refl screen
  · rfl

theorem doPostLinefeed_common_logs (screen : Screen) :
    Logs screen (commonLineEntries options screen) (doPostLinefeed options .common screen) := by
  unfold doPostLinefeed commonLineEntries
  cases screen.lastWasLinefeed with
  | false => exact Logs.refl screen
  | true =>
    by_cases numbered : options.lineNumbers = 0
    · simp [numbered, Mode.isCommon, entryIf, Logs]
    · simp [numbered, Mode.isCommon, entryIf, Logs, Screen.emit, Screen.emitIf]

theorem doPostLinefeed_changed_logs (screen : Screen) :
    Logs screen (changedLineEntries options side screen)
      (doPostLinefeed options (changedMode side) screen) := by
  have changed : (changedMode side).isCommon = false := by cases side <;> rfl
  unfold doPostLinefeed changedLineEntries
  dsimp only
  rw [changed, Bool.not_false, Bool.and_true, Bool.and_true]
  split
  · have numbered : Logs screen
        (if options.lineNumbers ≠ 0 then
          entryIf options.colorMode .other (.writeString resetColor) ++
            [(.other, .printLineNumbers screen.oldLineNumber screen.newLineNumber)]
        else [])
        (if options.lineNumbers ≠ 0 then
          (({ screen with lastWasLinefeed := false } : Screen).emitIf options.colorMode
            (.writeString resetColor)).emit
              (.printLineNumbers screen.oldLineNumber screen.newLineNumber)
        else { screen with lastWasLinefeed := false }) := by
      split
      · exact (emitIf_logs { screen with lastWasLinefeed := false } _ _ _).trans (emit_logs _ _ _)
      · exact Logs.refl screen
    refine numbered.trans ?_
    by_cases needs : options.needStartStop = true
    · rw [if_pos needs, if_pos needs]
      exact (emitIf_logs _ _ _ _).trans (emitIf_logs _ _ _ _)
    · rw [if_neg needs, if_neg needs]
      exact Logs.refl _
  · exact Logs.refl screen

theorem beforeLineBreak_logs (char : ReadChar) (screen : Screen) :
    Logs screen (breakEntries options side char screen)
      (beforeLineBreak options (changedMode side) char screen) := by
  have changed : (changedMode side).isCommon = false := by cases side <;> rfl
  unfold beforeLineBreak breakEntries
  rw [changed, Bool.not_false, Bool.and_true]
  split
  · exact (emitIf_logs _ _ _ _).trans (emitIf_logs _ _ _ _)
  · exact Logs.refl screen

theorem addCharData_logs (label : Label) (char : ReadChar) (common : Bool) (screen : Screen) :
    Meets (fun _ => True) (Logs screen (charEntries label common char))
      (addCharData char common screen) := by
  cases char with
  | single byte => rfl
  | cluster units =>
    unfold addCharData charEntries ReadChar.text
    dsimp only
    cases filteredConvertAll units 0 with
    | error failure => trivial
    | ok result =>
      show screen.output ++ _ = screen.output ++ _
      rw [List.map_map]
      rfl

theorem overstrike_logs (char : ReadChar) (screen : Screen) :
    Meets (fun _ => True) (Logs screen (strikeEntries options side char))
      (onlyIf ((options.printer || options.less) && !char.equals 10 && !char.equals 13)
        (overstrike (changedMode side) char) screen) := by
  unfold strikeEntries
  refine onlyIf_meets (fun strikes => ?_) fun plain => ?_
  · rw [if_pos strikes]
    cases side with
    | old => exact (emit_logs _ _ _).trans (emit_logs _ _ _)
    | new => exact (addCharData_logs _ char false screen).bind fun after logs =>
        logs.trans (emit_logs _ _ _)
  · rw [if_neg (by rw [plain]; exact Bool.false_ne_true)]
    exact Logs.refl screen

/-- The two flags are the same. -/
def SameFlags (before after : Screen) : Prop :=
  after.lastWasLinefeed = before.lastWasLinefeed ∧
    after.lastWasCarriageReturn = before.lastWasCarriageReturn

theorem emitIf_flags (screen : Screen) (condition : Bool) (emission : Emission) :
    SameFlags screen (screen.emitIf condition emission) := by
  cases condition <;> exact ⟨rfl, rfl⟩

theorem SameFlags.trans {first second third : Screen} (same : SameFlags first second)
    (same' : SameFlags second third) : SameFlags first third :=
  ⟨same'.1.trans same.1, same'.2.trans same.2⟩

/-- What `doPostLinefeed` leaves of the two flags. -/
theorem doPostLinefeed_flags (mode : Mode) (screen : Screen) :
    SameFlags { screen with lastWasLinefeed := false } (doPostLinefeed options mode screen) := by
  have numbered : ∀ screen : Screen, SameFlags screen
      (if options.lineNumbers ≠ 0 then
        (screen.emitIf (options.colorMode && !mode.isCommon) (.writeString resetColor)).emit
          (.printLineNumbers screen.oldLineNumber screen.newLineNumber)
      else screen) := by
    intro screen
    split
    · exact emitIf_flags screen _ _
    · exact ⟨rfl, rfl⟩
  unfold doPostLinefeed
  dsimp only
  split
  · split
    · exact (numbered _).trans ((emitIf_flags _ _ _).trans (emitIf_flags _ _ _))
    · exact numbered _
  · rename_i unset
    exact ⟨Bool.eq_false_iff.mpr unset, rfl⟩

theorem breakEntries_congr {screen' : Screen}
    (same : screen'.lastWasCarriageReturn = screen.lastWasCarriageReturn) (char : ReadChar) :
    breakEntries options side char screen' = breakEntries options side char screen := by
  rw [breakEntries, same]
  rfl

theorem printWhitespaceChar_logs (char : ReadChar) (screen : Screen) :
    Meets (fun _ => True) (Logs screen (ChangeAct.entries options side screen (.blank char)))
      (printWhitespaceChar options (changedMode side) char screen) := by
  have mode : (changedMode side == .del) = (side == .old) := by cases side <;> rfl
  have common : (changedMode side).isCommon = false := by cases side <;> rfl
  have same : (doPostLinefeed options (changedMode side) screen).lastWasCarriageReturn =
      screen.lastWasCarriageReturn := (doPostLinefeed_flags _ screen).2
  unfold printWhitespaceChar
  dsimp only
  rw [mode, common]
  refine (addCharData_logs .other char false _).bind fun last logs => ?_
  refine Logs.trans (doPostLinefeed_changed_logs screen |>.trans ?_) logs
  split
  · exact (emit_logs _ _ _).trans (emit_logs _ _ _)
  · rw [← breakEntries_congr same]
    exact beforeLineBreak_logs char _

theorem printTokenChar_logs (char : ReadChar) (screen : Screen) :
    Meets (fun _ => True) (Logs screen (ChangeAct.entries options side screen (.letter char)))
      (printTokenChar options (changedMode side) char screen) := by
  have common : (changedMode side).isCommon = false := by cases side <;> rfl
  have same : (doPostLinefeed options (changedMode side) screen).lastWasCarriageReturn =
      screen.lastWasCarriageReturn := (doPostLinefeed_flags _ screen).2
  have broken : Logs screen (changedLineEntries options side screen ++
      breakEntries options side char screen)
      (beforeLineBreak options (changedMode side) char
        (doPostLinefeed options (changedMode side) screen)) := by
    rw [← breakEntries_congr same]
    exact (doPostLinefeed_changed_logs screen).trans (beforeLineBreak_logs char _)
  unfold printTokenChar addTokenChar
  dsimp only
  rw [common]
  refine Meets.bind ((overstrike_logs char _).bind fun struck logs => ?_) fun last logs => logs
  exact (addCharData_logs (.letter side) char false struck).mono fun last logs' =>
    (broken.trans logs).trans logs'

/-- What is done inside of a change makes the calls that are labelled. -/
theorem ChangeAct.perform_logs (performs : act.perform options side screen = .ok after) :
    Logs screen (act.entries options side screen) after := by
  cases act with
  | blank char => exact (printWhitespaceChar_logs char screen).of_ok performs
  | letter char => exact (printTokenChar_logs char screen).of_ok performs
  | paragraph char =>
    have mode : (changedMode side != .add) = (side != .new) := by cases side <;> rfl
    rw [ChangeAct.perform, mode] at performs
    exact (doPostLinefeed_changed_logs screen).trans
      ((addCharData_logs (.paragraph side) char _ _).of_ok performs)
  | count other =>
    cases performs
    cases other <;> exact Logs.refl screen

theorem raiseCurtain_logs (screen : Screen) :
    Logs screen (commonLineEntries options screen ++ startEntries options side)
      (raiseCurtain options side screen) := by
  refine (doPostLinefeed_common_logs screen).trans ?_
  unfold raiseCurtain startEntries startWords
  split
  · exact (emitIf_logs _ _ _ _).trans (emit_logs _ _ _)
  · exact Logs.refl _

theorem lowerCurtain_logs (screen : Screen) :
    Logs screen (closingEntries options side screen) (lowerCurtain options side screen) := by
  refine (doPostLinefeed_changed_logs screen).trans ?_
  unfold lowerCurtain stopEntries stopWords
  split
  · exact (emit_logs _ _ _).trans (emitIf_logs _ _ _ _)
  · exact Logs.refl _

/-- A scene makes the calls that are labelled. -/
theorem Scene.perform_logs (performs : scene.perform options screen = .ok after) :
    Logs screen (scene.entries options screen) after := by
  cases scene with
  | common act =>
    cases act with
    | text char =>
      obtain ⟨printed, prints, isAfter⟩ := bind_eq_ok.mp performs
      cases isAfter
      have logs := (doPostLinefeed_common_logs screen).trans
        ((addCharData_logs .other char true _).of_ok prints)
      exact logs
    | count side =>
      cases performs
      cases side <;> exact Logs.refl screen
    | rule string fresh =>
      cases performs
      rfl
  | change side acts =>
    obtain ⟨final, folds, isAfter⟩ := bind_eq_ok.mp performs
    cases isAfter
    have spoken : Logs (raiseCurtain options side screen)
        (trace (ChangeAct.perform options side) (ChangeAct.entries options side)
          (raiseCurtain options side screen) acts) final :=
      trace_view (fun performs => ChangeAct.perform_logs performs) folds
    rw [Scene.entries, folds]
    exact ((raiseCurtain_logs screen).trans spoken).trans (lowerCurtain_logs final)

theorem addCharData_flags (char : ReadChar) (common : Bool) (screen : Screen) :
    Meets (fun _ => True) (SameFlags screen) (addCharData char common screen) := by
  cases char with
  | single byte => exact ⟨rfl, rfl⟩
  | cluster units =>
    exact (meets_any (filteredConvertAll units 0)).bind fun _ _ => ⟨rfl, rfl⟩

/-- The flags behind a character. -/
def FlagsBehind (char : ReadChar) (after : Screen) : Prop :=
  after.lastWasLinefeed = char.equals 10 ∧ after.lastWasCarriageReturn = char.equals 13

theorem rememberLineBreak_flags {char : ReadChar} (unset : screen.lastWasLinefeed = false) :
    FlagsBehind char (rememberLineBreak char screen) :=
  ⟨by rw [rememberLineBreak, unset, Bool.or_false], rfl⟩

theorem beforeLineBreak_flags (mode : Mode) (char : ReadChar) (screen : Screen) :
    SameFlags screen (beforeLineBreak options mode char screen) := by
  unfold beforeLineBreak
  split
  · exact (emitIf_flags _ _ _).trans (emitIf_flags _ _ _)
  · exact ⟨rfl, rfl⟩

theorem printWhitespaceChar_flags (mode : Mode) (char : ReadChar) (screen : Screen) :
    Meets (fun _ => True) (FlagsBehind char) (printWhitespaceChar options mode char screen) := by
  have started := @doPostLinefeed_flags options mode screen
  unfold printWhitespaceChar
  dsimp only
  refine (addCharData_flags char _ _).bind fun after same => rememberLineBreak_flags ?_
  refine same.1.trans ?_
  split
  · exact started.1
  · exact (beforeLineBreak_flags mode char _).1.trans started.1

theorem printTokenChar_flags (mode : Mode) (char : ReadChar) (screen : Screen) :
    Meets (fun _ => True) (FlagsBehind char) (printTokenChar options mode char screen) := by
  have started := @doPostLinefeed_flags options mode screen
  have struck : ∀ screen, Meets (fun _ => True) (SameFlags screen)
      (overstrike mode char screen) := by
    intro screen
    cases mode with
    | add => exact (addCharData_flags char false screen).bind fun _ same => same
    | del | common | oldCommon => exact ⟨rfl, rfl⟩
  unfold printTokenChar
  dsimp only
  refine @Meets.bind _ _ _ _ (fun after => after.lastWasLinefeed = false) _ _ _ ?_
    fun after unset => rememberLineBreak_flags unset
  refine (onlyIf_meets (fun _ => struck _) fun _ => ⟨rfl, rfl⟩).bind fun middle same => ?_
  refine (addCharData_flags char _ middle).mono fun after same' => ?_
  exact ((same.trans same').1.trans (beforeLineBreak_flags mode char _).1).trans started.1

/-- The labelled calls of a run are its output. -/
theorem Enacts.logs (enacts : Enacts options before scenes after) :
    Logs before (entries options before scenes) after :=
  trace_view (fun performs => Scene.perform_logs performs) enacts

/-! ### Text that is not common -/

/-- The call is for a character of a changed word or of the marker of a changed paragraph. -/
def Label.isText : Label → Bool
  | .letter _ | .paragraph _ => true
  | .start _ | .stop _ | .other => false

/-- The call passes changed text as common. -/
def Mislabelled (entry : Label × Emission) : Prop :=
  entry.1.isText = true ∧ ∃ c, entry.2 = .addchar c true

section Uncommon

variable {entry : Label × Emission}

/-- None of the calls passes changed text as common. -/
def Uncommon (entries : List (Label × Emission)) : Prop := ∀ entry ∈ entries, ¬ Mislabelled entry

theorem Uncommon.nil : Uncommon [] := fun _ absent => absurd absent List.not_mem_nil

theorem Uncommon.append {entries more : List (Label × Emission)} (uncommon : Uncommon entries)
    (uncommon' : Uncommon more) : Uncommon (entries ++ more) :=
  List.forall_mem_append.mpr ⟨uncommon, uncommon'⟩

theorem Uncommon.ite {condition : Prop} [Decidable condition]
    {entries others : List (Label × Emission)} (uncommon : Uncommon entries)
    (uncommon' : Uncommon others) : Uncommon (if condition then entries else others) := by
  split
  · exact uncommon
  · exact uncommon'

theorem Uncommon.plain {emission : Emission} (plain : label.isText = false) :
    Uncommon [(label, emission)] := by
  refine List.forall_mem_singleton.mpr fun mislabelled => ?_
  exact Bool.false_ne_true (plain.symm.trans mislabelled.1)

theorem Uncommon.struck (c : UInt8) :
    Uncommon [(label, .addchar c false), (label, .addchar 8 false)] := by
  rintro entry isIn ⟨-, c, isCommon⟩
  simp only [List.mem_cons, List.not_mem_nil, or_false] at isIn
  rcases isIn with rfl | rfl <;> cases isCommon

theorem entryIf_uncommon {condition : Bool} {emission : Emission} (plain : label.isText = false) :
    Uncommon (entryIf condition label emission) :=
  .ite (.plain plain) .nil

theorem charEntries_sound {char : ReadChar} (isIn : entry ∈ charEntries label common char)
    (mislabelled : Mislabelled entry) : label.isText = true ∧ common = true ∧ char.text ≠ [] := by
  obtain ⟨byte, isByte, rfl⟩ := List.mem_map.mp isIn
  obtain ⟨isText, c, isCommon⟩ := mislabelled
  exact ⟨isText, (Emission.addchar.inj isCommon).2, List.ne_nil_of_mem isByte⟩

theorem charEntries_other (common : Bool) (char : ReadChar) :
    Uncommon (charEntries .other common char) := fun _ isIn mislabelled =>
  Bool.false_ne_true (charEntries_sound isIn mislabelled).1

theorem charEntries_changed (label : Label) (char : ReadChar) :
    Uncommon (charEntries label false char) := fun _ isIn mislabelled =>
  Bool.false_ne_true (charEntries_sound isIn mislabelled).2.1

theorem changedLineEntries_uncommon (side : Side) (screen : Screen) :
    Uncommon (changedLineEntries options side screen) :=
  .ite (.append (.ite ((entryIf_uncommon rfl).append (.plain rfl)) .nil)
    (.ite ((entryIf_uncommon rfl).append (entryIf_uncommon rfl)) .nil)) .nil

theorem breakEntries_uncommon (char : ReadChar) (screen : Screen) :
    Uncommon (breakEntries options side char screen) :=
  .ite ((entryIf_uncommon rfl).append (entryIf_uncommon rfl)) .nil

theorem strikeEntries_uncommon (char : ReadChar) :
    Uncommon (strikeEntries options side char) := by
  refine .ite ?_ .nil
  cases side with
  | old => exact .struck 0x5F
  | new =>
    refine (charEntries_changed _ char).append (List.forall_mem_singleton.mpr ?_)
    rintro ⟨-, c, isCommon⟩
    cases isCommon

/-- Only the marker of a deleted paragraph is passed as common. -/
theorem ChangeAct.entries_sound (isIn : entry ∈ act.entries options side screen)
    (mislabelled : Mislabelled entry) :
    side = .old ∧ ∃ char, act = .paragraph char ∧ char.text ≠ [] := by
  have line := @changedLineEntries_uncommon options side screen
  cases act with
  | blank char =>
    refine absurd mislabelled (Uncommon.append (line.append ?_) (charEntries_other _ char) _ isIn)
    exact .ite (.struck 0x5F) (breakEntries_uncommon char screen)
  | letter char =>
    refine absurd mislabelled (Uncommon.append ?_ (charEntries_changed _ char) _ isIn)
    exact (line.append (breakEntries_uncommon char screen)).append (strikeEntries_uncommon char)
  | paragraph char =>
    rcases List.mem_append.mp isIn with isIn | isIn
    · exact absurd mislabelled (line _ isIn)
    · obtain ⟨-, isOld, shown⟩ := charEntries_sound isIn mislabelled
      refine ⟨?_, char, rfl, shown⟩
      cases side with
      | old => rfl
      | new => contradiction
  | count other => contradiction

theorem Scene.entries_sound (performs : scene.perform options screen = .ok after)
    (isIn : entry ∈ scene.entries options screen) (mislabelled : Mislabelled entry) :
    ∃ acts char, scene = .change .old acts ∧ ChangeAct.paragraph char ∈ scene.acts .old ∧
      char.text ≠ [] := by
  have line : Uncommon (commonLineEntries options screen) := entryIf_uncommon rfl
  cases scene with
  | common act =>
    cases act with
    | text char => exact absurd mislabelled (line.append (charEntries_other _ char) _ isIn)
    | count side => contradiction
    | rule string fresh => exact absurd mislabelled (Uncommon.plain rfl _ isIn)
  | change side acts =>
    obtain ⟨final, folds, -⟩ := bind_eq_ok.mp performs
    have starts : Uncommon (startEntries options side) :=
      .ite ((entryIf_uncommon rfl).append (.plain rfl)) .nil
    have stops : Uncommon (stopEntries options side) :=
      .ite (Uncommon.append (.plain rfl) (entryIf_uncommon rfl)) .nil
    rw [Scene.entries, folds] at isIn
    rcases List.mem_append.mp isIn with isIn | isIn
    · rcases List.mem_append.mp isIn with isIn | isIn
      · exact absurd mislabelled (line.append starts _ isIn)
      · obtain ⟨act, isAct, before, next, -, isIn⟩ := exists_of_mem_trace folds isIn
        obtain ⟨rfl, char, rfl, shown⟩ := ChangeAct.entries_sound isIn mislabelled
        exact ⟨acts, char, rfl, isAct, shown⟩
    · exact absurd mislabelled ((changedLineEntries_uncommon side final).append stops _ isIn)

theorem Scene.mem_entries (performs : scene.perform options screen = .ok after) {char : ReadChar}
    (isAct : act ∈ scene.acts .old) (isParagraph : act.asParagraph = some char)
    (isByte : byte ∈ char.text) :
    (Label.paragraph .old, Emission.addchar byte true) ∈ scene.entries options screen := by
  cases scene with
  | common act => contradiction
  | change side acts =>
    obtain ⟨final, folds, -⟩ := bind_eq_ok.mp performs
    cases side with
    | new => contradiction
    | old =>
      cases act with
      | paragraph other =>
        obtain rfl := Option.some.inj isParagraph
        refine List.mem_append_left _ (List.mem_append_right _ ?_)
        refine mem_trace_of_mem folds isAct fun _ => List.mem_append_right _ ?_
        exact List.mem_map.mpr ⟨byte, isByte, rfl⟩
      | blank other | letter other | count other => contradiction

/-- Changed text is passed as common exactly where a character of the marker of a deleted paragraph
is written. -/
theorem exists_mislabelled (enacts : Enacts options before scenes after) :
    (∃ entry ∈ entries options before scenes, Mislabelled entry) ↔
      ∃ char ∈ (scenes.flatMap (Scene.acts .old)).filterMap ChangeAct.asParagraph,
        char.text ≠ [] := by
  constructor
  · rintro ⟨entry, isIn, mislabelled⟩
    obtain ⟨scene, isScene, screen, next, performs, isIn⟩ := exists_of_mem_trace enacts isIn
    obtain ⟨acts, char, rfl, isAct, shown⟩ := Scene.entries_sound performs isIn mislabelled
    refine ⟨char, List.mem_filterMap.mpr ⟨.paragraph char, ?_, rfl⟩, shown⟩
    exact List.mem_flatMap.mpr ⟨_, isScene, isAct⟩
  · rintro ⟨char, isChar, shown⟩
    obtain ⟨act, isAct, isParagraph⟩ := List.mem_filterMap.mp isChar
    obtain ⟨scene, isScene, isAct⟩ := List.mem_flatMap.mp isAct
    obtain ⟨byte, isByte⟩ := List.exists_mem_of_ne_nil _ shown
    refine ⟨(.paragraph .old, .addchar byte true), ?_, rfl, byte, rfl⟩
    refine mem_trace_of_mem enacts isScene fun performs => ?_
    exact Scene.mem_entries performs isAct isParagraph isByte

/-- In every run all characters of inserted and deleted words, and those of the markers of changed
paragraphs, are passed to `addchar` as text that is not common, exactly if no marker is written for
a deleted paragraph. -/
theorem changedText_uncommon_iff {locale : Locale} {old new : List UInt8} {charData : CharData}
    {state : Printing} {executed : Executed}
    (returns : prepareAndExecuteDiff options locale old new charData state = .ok executed) :
    ∃ scenes taken, Plays options locale state scenes taken executed.state ∧
      executed.state.screen.output =
        state.screen.output ++ (entries options state.screen scenes).map Prod.snd ∧
      ((∀ entry ∈ entries options state.screen scenes, entry.1.isText = true →
          ∀ c, entry.2 ≠ .addchar c true) ↔
        (options.paraDelim = true → options.printDeleted = true →
          some [] ∈ changedTokens .old taken → pieceText (markerChars options locale) = [])) := by
  obtain ⟨scenes, taken, plays⟩ :=
    (prepareAndExecuteDiff_played old new charData state).of_ok returns
  refine ⟨scenes, taken, plays, plays.screen.logs, ?_⟩
  have isClean : (∀ entry ∈ entries options state.screen scenes, entry.1.isText = true →
      ∀ c, entry.2 ≠ .addchar c true) ↔
      ¬ ∃ entry ∈ entries options state.screen scenes, Mislabelled entry := by
    refine ⟨fun clean ⟨entry, isIn, isText, c, isCommon⟩ => clean entry isIn isText c isCommon,
      fun clean entry isIn isText c isCommon => clean ⟨entry, isIn, isText, c, isCommon⟩⟩
  rw [isClean, exists_mislabelled plays.screen, (plays.spoken .old).paragraphs]
  constructor
  · intro clean delimits prints isDeleted
    refine List.flatMap_eq_nil_iff.mpr fun char isChar => ?_
    by_contra shown
    refine clean ⟨char, ?_, shown⟩
    have marked : (options.paraDelim && shows options .old) = true :=
      Bool.and_eq_true_iff.mpr ⟨delimits, prints⟩
    rw [if_pos marked]
    exact List.mem_flatMap.mpr ⟨some [], List.mem_filter.mpr ⟨isDeleted, rfl⟩, isChar⟩
  · rintro clean ⟨char, isChar, shown⟩
    split at isChar
    · rename_i marked
      obtain ⟨delimits, prints⟩ := Bool.and_eq_true_iff.mp marked
      obtain ⟨token, isToken, isChar⟩ := List.mem_flatMap.mp isChar
      obtain ⟨isToken, isEmpty⟩ := List.mem_filter.mp isToken
      rw [beq_iff_eq] at isEmpty
      rw [isEmpty] at isToken
      exact shown (List.flatMap_eq_nil_iff.mp (clean delimits prints isToken) char isChar)
    · contradiction

theorem changedText_uncommon_words :
    ∃ executed, prepareAndExecuteDiff defaultOptions cLocale [97, 32, 98] [97, 10, 99]
        ⟨0, [], [], []⟩ initialPrinting = .ok executed ∧
      ∃ scenes taken, Plays defaultOptions cLocale initialPrinting scenes taken executed.state ∧
        ∀ entry ∈ entries defaultOptions initialScreen scenes, entry.1.isText = true →
          ∀ c, entry.2 ≠ .addchar c true := by
  obtain ⟨executed, returns⟩ := @exists_of_toBool _ _ (prepareAndExecuteDiff defaultOptions cLocale
    [97, 32, 98] [97, 10, 99] ⟨0, [], [], []⟩ initialPrinting) (by decide +kernel)
  obtain ⟨scenes, taken, plays, -, uncommon⟩ := changedText_uncommon_iff returns
  exact ⟨executed, returns, scenes, taken, plays, uncommon.mpr nofun⟩

/-- What is written for two files, without context lines or with none of them. -/
def outputs (options : Options) (old new : List UInt8) :
    Except Failure (List UInt8 × List UInt8) := do
  let executed ← prepareAndExecuteDiff options cLocale old new ⟨0, [], [], []⟩ initialPrinting
  let output := executed.state.screen.output
  .ok (((initialBuffers 0).performAll false options.lineNumbers output).output,
    ((initialBuffers 0).performAll true options.lineNumbers output).output)

/-- The paragraph break of `a`, an empty line and `b` is deleted in `a b`. With context lines
nothing is written. -/
theorem deletedParagraph_dropped :
    outputs { defaultOptions with paraDelim := true } "a\n\nb".toUTF8.toList "a b".toUTF8.toList =
      .ok ("a\n[-<-->-]\nb".toUTF8.toList, []) := by
  decide +kernel

end Uncommon

/-! ### Alternation -/

/-- Where a call leads, outside of markers or behind the start marker of a file. Markers alternate,
and changed text is behind the start marker of its file. -/
def Label.next : Option Side → Label → Option (Option Side)
  | now, .other => some now
  | none, .start side => some (some side)
  | some side, .stop side' => if side' = side then some none else none
  | some side, .letter side' => if side' = side then some (some side) else none
  | some side, .paragraph side' => if side' = side then some (some side) else none
  | _, _ => none

def follow (now : Option Side) (entries : List (Label × Emission)) : Option (Option Side) :=
  (entries.map Prod.fst).foldlM Label.next now

/-- The markers of the calls alternate and enclose the changed text. -/
def Alternates (entries : List (Label × Emission)) : Prop := follow none entries = some none

instance (entries : List (Label × Emission)) : Decidable (Alternates entries) :=
  inferInstanceAs (Decidable (_ = _))

/-- The line breaks of a change: none is part of a word, a carriage return is followed by a line
feed at once, and no line feed follows a carriage return from before the change. The flags say
whether the last character was a carriage return, and whether it was not one of this change. -/
def lineBreaksPaired : Bool → Bool → List ChangeAct → Bool
  | _, fresh, [] => fresh
  | carriageReturn, fresh, .blank char :: acts =>
    (if char.equals 10 then carriageReturn != fresh else fresh) &&
      lineBreaksPaired (char.equals 13) (!char.equals 13) acts
  | carriageReturn, fresh, .letter char :: acts =>
    (char.text.isEmpty || !(char.equals 10 || char.equals 13)) &&
      (if char.equals 10 then carriageReturn != fresh else fresh) &&
      lineBreaksPaired (char.equals 13) (!char.equals 13) acts
  | carriageReturn, fresh, .paragraph char :: acts =>
    (fresh || char.text.isEmpty) && lineBreaksPaired carriageReturn fresh acts
  | carriageReturn, fresh, .count _ :: acts => lineBreaksPaired carriageReturn fresh acts

/-- Whether the markers alternate, from a place inside or outside of the markers and with the two
flags of the screen on. -/
def encloses : Bool → Bool → Bool → List ChangeAct → Bool
  | inside, lastWasLinefeed, _, [] => inside != lastWasLinefeed
  | inside, lastWasLinefeed, lastWasCarriageReturn, .blank char :: acts =>
    !(inside && lastWasLinefeed) &&
      if char.equals 13 || (!lastWasCarriageReturn && char.equals 10) then
        (inside || lastWasLinefeed) && encloses false (char.equals 10) (char.equals 13) acts
      else encloses (inside || lastWasLinefeed) (char.equals 10) (char.equals 13) acts
  | inside, lastWasLinefeed, lastWasCarriageReturn, .letter char :: acts =>
    !(inside && lastWasLinefeed) &&
      if char.equals 13 || (!lastWasCarriageReturn && char.equals 10) then
        (inside || lastWasLinefeed) && char.text.isEmpty &&
          encloses false (char.equals 10) (char.equals 13) acts
      else (inside || lastWasLinefeed || char.text.isEmpty) &&
        encloses (inside || lastWasLinefeed) (char.equals 10) (char.equals 13) acts
  | inside, lastWasLinefeed, lastWasCarriageReturn, .paragraph char :: acts =>
    !(inside && lastWasLinefeed) && (inside || lastWasLinefeed || char.text.isEmpty) &&
      encloses (inside || lastWasLinefeed) false lastWasCarriageReturn acts
  | inside, lastWasLinefeed, lastWasCarriageReturn, .count _ :: acts =>
    encloses inside lastWasLinefeed lastWasCarriageReturn acts

theorem equals_exclusive {char : ReadChar} (lineFeed : char.equals 10 = true) :
    char.equals 13 = false := by
  cases char with
  | single byte | cluster units =>
    rw [ReadChar.equals, beq_iff_eq] at lineFeed
    rw [ReadChar.equals, lineFeed]
    rfl

/-- The flags are in step with the markers in three places: inside, behind a line feed where the
start marker is still to come, and behind a carriage return of the change. In the two other places
the markers do not alternate any more. -/
theorem encloses_eq (acts : List ChangeAct) :
    (∀ carriageReturn, encloses true false carriageReturn acts =
        lineBreaksPaired carriageReturn true acts) ∧
      encloses false true false acts = lineBreaksPaired false true acts ∧
      encloses false false true acts = lineBreaksPaired true false acts ∧
      encloses false false false acts = false ∧
      ∀ carriageReturn, encloses true true carriageReturn acts = false := by
  induction acts with
  | nil => decide
  | cons act acts inductionHypothesis =>
    obtain ⟨inside, behindFeed, behindReturn, outside, doubled⟩ := inductionHypothesis
    cases act with
    | count side => exact ⟨inside, behindFeed, behindReturn, outside, doubled⟩
    | paragraph char =>
      simp [encloses, lineBreaksPaired, inside, behindReturn, outside]
    | blank char | letter char =>
      cases lineFeed : char.equals 10 with
      | true =>
        simp [encloses, lineBreaksPaired, lineFeed, equals_exclusive lineFeed, behindFeed, doubled]
      | false =>
        cases carriageReturn : char.equals 13 <;>
          simp [encloses, lineBreaksPaired, lineFeed, carriageReturn, inside, behindReturn, outside]

/-- The change, with the flag it starts from. -/
def Scene.changes (screen : Screen) : Scene → List (Bool × List ChangeAct)
  | .common _ => []
  | .change _ acts => [(screen.lastWasCarriageReturn, acts)]

/-- The changes of a run: whether the last character in front of each was a carriage return, and
what is done for its words. -/
def changes (options : Options) (screen : Screen) (scenes : List Scene) :
    List (Bool × List ChangeAct) :=
  trace (Scene.perform options) Scene.changes screen scenes

section Alternation

/-- The calls for a character of a word, behind what is written at line breaks. -/
def spelling (options : Options) (side : Side) (char : ReadChar) : List (Label × Emission) :=
  strikeEntries options side char ++ charEntries (.letter side) false char

/-- Inside or outside of the markers of a file. -/
def place (side : Side) (inside : Bool) : Option Side := if inside then some side else none

theorem follow_append (now : Option Side) (entries more : List (Label × Emission)) :
    follow now (entries ++ more) = (follow now entries).bind fun next => follow next more := by
  rw [follow, List.map_append, List.foldlM_append]
  rfl

theorem follow_all {now : Option Side} {entries : List (Label × Emission)}
    (stays : ∀ entry ∈ entries, entry.1.next now = some now) : follow now entries = some now := by
  induction entries with
  | nil => rfl
  | cons entry entries inductionHypothesis =>
    rw [follow, List.map_cons, List.foldlM_cons, stays entry List.mem_cons_self]
    exact inductionHypothesis fun other isIn => stays other (List.mem_cons_of_mem _ isIn)

theorem follow_charEntries {now : Option Side} {char : ReadChar}
    (stays : label.next now = some now) :
    follow now (charEntries label common char) = some now := by
  refine follow_all fun entry isIn => ?_
  obtain ⟨byte, -, rfl⟩ := List.mem_map.mp isIn
  exact stays

/-- Changed text that is not enclosed. -/
theorem follow_charEntries_none {char : ReadChar} (fails : label.next none = none) :
    follow none (charEntries label common char) =
      if char.text.isEmpty then some none else none := by
  unfold charEntries
  cases char.text with
  | nil => rfl
  | cons byte bytes =>
    rw [follow, List.map_cons, List.map_cons, List.foldlM_cons, fails]
    rfl

theorem follow_entryIf_other (now : Option Side) (condition : Bool) (emission : Emission) :
    follow now (entryIf condition .other emission) = some now := by
  cases condition <;> cases now <;> rfl

theorem follow_commonLineEntries (now : Option Side) (screen : Screen) :
    follow now (commonLineEntries options screen) = some now :=
  follow_entryIf_other now _ _

variable (needs : options.needStartStop = true) (repeats : options.repeatMarkers = true)

include needs repeats

theorem follow_changedLineEntries (inside : Bool) (screen : Screen) :
    follow (place side inside) (changedLineEntries options side screen) =
      if inside && screen.lastWasLinefeed then none
      else some (place side (inside || screen.lastWasLinefeed)) := by
  have numbered : follow (place side inside)
      (if options.lineNumbers ≠ 0 then
        entryIf options.colorMode .other (.writeString resetColor) ++
          [(.other, .printLineNumbers screen.oldLineNumber screen.newLineNumber)]
      else []) = some (place side inside) := by
    split
    · rw [follow_append, follow_entryIf_other]
      cases inside <;> rfl
    · rfl
  unfold changedLineEntries
  rw [needs, repeats]
  cases screen.lastWasLinefeed with
  | false => cases inside <;> rfl
  | true =>
    rw [if_pos rfl, if_pos rfl, follow_append, numbered, Option.bind_some, follow_append,
      follow_entryIf_other]
    cases inside <;> rfl

theorem follow_breakEntries (inside : Bool) (char : ReadChar) (screen : Screen) :
    follow (place side inside) (breakEntries options side char screen) =
      if char.equals 13 || (!screen.lastWasCarriageReturn && char.equals 10) then
        if inside then some none else none
      else some (place side inside) := by
  unfold breakEntries
  rw [needs, repeats, Bool.true_and]
  split
  · rw [follow_append]
    cases inside with
    | false => rfl
    | true =>
      have stops : follow (place side true) (entryIf true (.stop side)
          (.writeString (stopMarker options (changedMode side)))) = some none := by
        simp [follow, entryIf, place, Label.next]
      rw [stops, Option.bind_some, follow_entryIf_other]
      rfl
  · rfl

theorem follow_closingEntries (inside : Bool) (screen : Screen) :
    follow (place side inside) (closingEntries options side screen) =
      if inside != screen.lastWasLinefeed then some none else none := by
  have stops : follow (some side) (stopEntries options side) = some none := by
    unfold stopEntries
    rw [if_pos needs, ← List.singleton_append, follow_append]
    have stop : follow (some side) [(.stop side, .writeString
        (stopMarker options (changedMode side)))] = some none := by
      simp [follow, Label.next]
    rw [stop, Option.bind_some, follow_entryIf_other]
  have fails : follow none (stopEntries options side) = none := by
    unfold stopEntries
    rw [if_pos needs]
    rfl
  unfold closingEntries
  rw [follow_append, follow_changedLineEntries needs repeats]
  cases inside <;> cases screen.lastWasLinefeed
  · exact fails
  · exact stops
  · exact stops
  · rfl

/-- Whitespace inside of a change. -/
theorem follow_blankEntries (inside : Bool) (char : ReadChar) (screen : Screen) :
    follow (place side inside)
        ((if options.less && !char.equals 10 && !char.equals 13 && side == .old then
          [(.other, .addchar 0x5F false), (.other, .addchar 8 false)]
        else breakEntries options side char screen) ++ charEntries .other false char) =
      if char.equals 13 || (!screen.lastWasCarriageReturn && char.equals 10) then
        if inside then some none else none
      else some (place side inside) := by
  have blank : ∀ now : Option Side,
      follow now (charEntries .other false char) = some now := fun now =>
    follow_charEntries (by cases now <;> rfl)
  rw [follow_append]
  split
  · rename_i struck
    simp only [Bool.and_eq_true, Bool.not_eq_true'] at struck
    rw [struck.1.1.2, struck.1.2, Bool.and_false]
    refine (congrArg (Option.bind · _) (follow_all fun entry isIn => ?_)).trans (blank _)
    simp only [List.mem_cons, List.not_mem_nil, or_false] at isIn
    rcases isIn with rfl | rfl <;> cases inside <;> rfl
  · rw [follow_breakEntries needs repeats]
    split
    · cases inside with
      | true => exact blank none
      | false => rfl
    · exact blank _

omit needs repeats in
/-- The calls for a character of a word. -/
theorem letters_label {char : ReadChar} {entry : Label × Emission}
    (isIn : entry ∈ spelling options side char) : entry.1 = .letter side := by
  have written : ∀ entry ∈ charEntries (.letter side) false char, entry.1 = .letter side := by
    intro entry isIn
    obtain ⟨byte, -, rfl⟩ := List.mem_map.mp isIn
    rfl
  rcases List.mem_append.mp isIn with isIn | isIn
  · unfold strikeEntries at isIn
    split at isIn
    · cases side with
      | old =>
        simp only [List.mem_cons, List.not_mem_nil, or_false] at isIn
        rcases isIn with rfl | rfl <;> rfl
      | new =>
        rcases List.mem_append.mp isIn with isIn | isIn
        · exact written entry isIn
        · rw [List.mem_singleton.mp isIn]
    · contradiction
  · exact written entry isIn

omit needs repeats in
theorem follow_letters (char : ReadChar) :
    follow (some side) (spelling options side char) = some (some side) := by
  refine follow_all fun entry isIn => ?_
  rw [letters_label isIn]
  exact if_pos rfl

omit needs repeats in
/-- Letters that are not enclosed. -/
theorem follow_letters_none (char : ReadChar) :
    follow none (spelling options side char) =
      if (spelling options side char).isEmpty then some none else none := by
  cases isEntries : spelling options side char with
  | nil => rfl
  | cons entry entries =>
    have isLetter : entry.1 = .letter side :=
      letters_label (isEntries ▸ List.mem_cons_self : entry ∈ spelling options side char)
    rw [follow, List.map_cons, List.foldlM_cons, isLetter]
    rfl

omit needs repeats in
theorem spelling_lineBreak {char : ReadChar}
    (breaks : char.equals 10 = true ∨ char.equals 13 = true) :
    (spelling options side char).isEmpty = char.text.isEmpty := by
  unfold spelling strikeEntries charEntries
  rcases breaks with breaks | breaks <;> simp [breaks]

/-- A character of a word, behind what `doPostLinefeed` wrote. -/
theorem follow_letterEntries (inside : Bool) (char : ReadChar) (screen : Screen) :
    follow (place side inside) (breakEntries options side char screen ++
        spelling options side char) =
      if char.equals 13 || (!screen.lastWasCarriageReturn && char.equals 10) then
        if inside && char.text.isEmpty then some none else none
      else if inside || (spelling options side char).isEmpty then some (place side inside)
      else none := by
  rw [follow_append, follow_breakEntries needs repeats]
  cases breaks : char.equals 13 || (!screen.lastWasCarriageReturn && char.equals 10) with
  | true =>
    have isBreak : char.equals 10 = true ∨ char.equals 13 = true := by
      simp only [Bool.or_eq_true, Bool.and_eq_true] at breaks
      exact breaks.symm.imp_left And.right
    cases inside with
    | true =>
      refine (follow_letters_none char).trans ?_
      rw [spelling_lineBreak isBreak]
      rfl
    | false => rfl
  | false =>
    cases inside with
    | true => exact follow_letters char
    | false => exact follow_letters_none char

omit needs repeats in
/-- A character that is not enclosed: a line feed behind a carriage return may still be followed by
a start marker, anything else is lost. -/
theorem follow_unenclosed {char : ReadChar} {carriageReturn : Bool}
    {rest : List (Label × Emission)}
    (breaks : (char.equals 13 || (!carriageReturn && char.equals 10)) = false)
    (later : ∀ inside, follow (place side inside) rest =
      if encloses inside (char.equals 10) (char.equals 13) acts then some none else none) :
    (Option.bind (if false || (spelling options side char).isEmpty then some (place side false)
        else none) fun next => follow next rest) =
      if !false && (false || char.text.isEmpty) &&
          encloses false (char.equals 10) (char.equals 13) acts then some none else none := by
  obtain ⟨noReturn, -⟩ := Bool.or_eq_false_iff.mp breaks
  cases lineFeed : char.equals 10 with
  | true =>
    rw [spelling_lineBreak (Or.inl lineFeed)]
    cases char.text.isEmpty with
    | true =>
      rw [lineFeed] at later
      exact later false
    | false => rfl
  | false =>
    have lost := (encloses_eq acts).2.2.2.1
    rw [lineFeed, noReturn] at later
    rw [noReturn, lost, Bool.and_false]
    cases (spelling options side char).isEmpty with
    | true => exact (later false).trans (by rw [lost])
    | false => rfl

/-- The calls for the words of a change follow the markers as `encloses` says. -/
theorem follow_acts {final : Screen}
    (folds : acts.foldlM (ChangeAct.perform options side) screen = .ok final) (inside : Bool) :
    follow (place side inside) (trace (ChangeAct.perform options side)
        (ChangeAct.entries options side) screen acts ++ closingEntries options side final) =
      if encloses inside screen.lastWasLinefeed screen.lastWasCarriageReturn acts then some none
      else none := by
  induction acts generalizing screen inside with
  | nil =>
    obtain rfl : screen = final := Except.ok.inj folds
    exact follow_closingEntries needs repeats inside screen
  | cons act acts inductionHypothesis =>
    obtain ⟨next, performs, rest⟩ := foldlM_cons_ok folds
    have later := inductionHypothesis rest
    rw [trace_cons performs, List.append_assoc, follow_append]
    cases act with
    | count other =>
      cases performs
      cases other <;> exact later inside
    | paragraph char =>
      have flags : next.lastWasLinefeed = false ∧
          next.lastWasCarriageReturn = screen.lastWasCarriageReturn := by
        have same := (addCharData_flags char _ _).of_ok performs
        have started := @doPostLinefeed_flags options (changedMode side) screen
        exact ⟨same.1.trans started.1, same.2.trans started.2⟩
      rw [flags.1, flags.2] at later
      rw [ChangeAct.entries, follow_append, follow_changedLineEntries needs repeats, encloses]
      cases inside && screen.lastWasLinefeed with
      | true => rfl
      | false =>
        cases inside || screen.lastWasLinefeed with
        | true =>
          have stays : (Label.paragraph side).next (some side) = some (some side) := if_pos rfl
          exact (congrArg (Option.bind · _) (follow_charEntries stays)).trans (later true)
        | false =>
          refine (congrArg (Option.bind · _) (follow_charEntries_none rfl)).trans ?_
          cases char.text.isEmpty with
          | true => exact later false
          | false => rfl
    | blank char =>
      have flags := (printWhitespaceChar_flags _ char screen).of_ok performs
      rw [flags.1, flags.2] at later
      rw [ChangeAct.entries, List.append_assoc, follow_append,
        follow_changedLineEntries needs repeats, encloses]
      cases inside && screen.lastWasLinefeed with
      | true => rfl
      | false =>
        generalize (inside || screen.lastWasLinefeed) = now
        have broken := @follow_blankEntries options side needs repeats now char screen
        refine (congrArg (Option.bind · _) broken).trans ?_
        cases char.equals 13 || (!screen.lastWasCarriageReturn && char.equals 10) with
        | true =>
          cases now with
          | true => exact later false
          | false => rfl
        | false => exact later now
    | letter char =>
      have flags := (printTokenChar_flags _ char screen).of_ok performs
      rw [flags.1, flags.2] at later
      rw [ChangeAct.entries, List.append_assoc, List.append_assoc, follow_append,
        follow_changedLineEntries needs repeats, encloses]
      cases inside && screen.lastWasLinefeed with
      | true => rfl
      | false =>
        generalize (inside || screen.lastWasLinefeed) = now
        have written := @follow_letterEntries options side needs repeats now char screen
        refine (congrArg (Option.bind · _) written).trans ?_
        cases breaks : char.equals 13 || (!screen.lastWasCarriageReturn && char.equals 10) with
        | true =>
          cases now with
          | true =>
            cases char.text.isEmpty with
            | true => exact later false
            | false => rfl
          | false => rfl
        | false =>
          cases now with
          | true => exact later true
          | false => exact follow_unenclosed breaks later

/-- The markers of one change. -/
theorem follow_change (performs : (Scene.change side acts).perform options screen = .ok after) :
    follow none ((Scene.change side acts).entries options screen) =
      if lineBreaksPaired screen.lastWasCarriageReturn true acts then some none else none := by
  obtain ⟨final, folds, -⟩ := bind_eq_ok.mp performs
  have starts : follow none (startEntries options side) = some (some side) := by
    unfold startEntries
    rw [if_pos needs, follow_append, follow_entryIf_other]
    rfl
  have flags : SameFlags { screen with lastWasLinefeed := false }
      (raiseCurtain options side screen) := by
    refine (@doPostLinefeed_flags options .common screen).trans ?_
    rw [raiseCurtain, startWords, if_pos needs]
    exact emitIf_flags (doPostLinefeed options .common screen) options.colorMode _
  have enclosed := follow_acts needs repeats folds true
  rw [flags.1, flags.2, (encloses_eq acts).1] at enclosed
  rw [Scene.entries, folds, wordsEntries, List.append_assoc, List.append_assoc, follow_append,
    follow_commonLineEntries, Option.bind_some, follow_append, starts, Option.bind_some]
  exact enclosed

omit needs repeats in
theorem follow_common (act : CommonAct) (screen : Screen) :
    follow none ((Scene.common act).entries options screen) = some none := by
  cases act with
  | text char =>
    rw [Scene.entries, follow_append, follow_commonLineEntries]
    exact follow_charEntries rfl
  | count side => rfl
  | rule string fresh => rfl

/-- The markers of a run alternate if those of its changes do. -/
theorem alternates_iff (enacts : Enacts options before scenes after) :
    Alternates (entries options before scenes) ↔
      ∀ change ∈ changes options before scenes,
        lineBreaksPaired change.1 true change.2 = true := by
  induction scenes generalizing before with
  | nil => exact iff_of_true rfl fun _ absent => absurd absent List.not_mem_nil
  | cons scene scenes inductionHypothesis =>
    obtain ⟨next, performs, enacts'⟩ := foldlM_cons_ok enacts
    have later := inductionHypothesis enacts'
    rw [Alternates, entries, trace_cons performs, follow_append, changes, trace_cons performs,
      List.forall_mem_append]
    cases scene with
    | common act =>
      rw [follow_common, Option.bind_some]
      exact later.trans (and_iff_right fun _ absent => absurd absent List.not_mem_nil).symm
    | change side acts =>
      have single : (∀ change ∈ (Scene.change side acts).changes before,
          lineBreaksPaired change.1 true change.2 = true) ↔
          lineBreaksPaired before.lastWasCarriageReturn true acts = true :=
        List.forall_mem_singleton
      rw [follow_change needs repeats performs, single]
      cases lineBreaksPaired before.lastWasCarriageReturn true acts with
      | true => exact later.trans (and_iff_right rfl).symm
      | false => exact iff_of_false nofun fun both => Bool.false_ne_true both.1

/-- With markers repeated at line breaks, the markers of a run alternate and enclose all text of
inserted and deleted words exactly if the line breaks of every change that is printed are paired. -/
theorem markers_alternate_iff {locale : Locale} {old new : List UInt8} {charData : CharData}
    {state : Printing} {executed : Executed}
    (returns : prepareAndExecuteDiff options locale old new charData state = .ok executed) :
    ∃ scenes taken, Plays options locale state scenes taken executed.state ∧
      executed.state.screen.output =
        state.screen.output ++ (entries options state.screen scenes).map Prod.snd ∧
      (Alternates (entries options state.screen scenes) ↔
        ∀ change ∈ changes options state.screen scenes,
          lineBreaksPaired change.1 true change.2 = true) := by
  obtain ⟨scenes, taken, plays⟩ :=
    (prepareAndExecuteDiff_played old new charData state).of_ok returns
  exact ⟨scenes, taken, plays, plays.screen.logs, alternates_iff needs repeats plays.screen⟩

end Alternation

/-- A line break is among the bytes that are written for a character. -/
theorem break_mem_text {char : ReadChar} (isBreak : byte = 10 ∨ byte = 13)
    (equals : char.equals byte.toNat = true) (adds : addCharData char common screen = .ok after) :
    byte ∈ char.text := by
  cases char with
  | single other =>
    rw [ReadChar.equals, beq_iff_eq] at equals
    rw [UInt8.toNat_inj.mp equals]
    exact List.mem_singleton_self byte
  | cluster units =>
    obtain ⟨⟨bytes, high⟩, converts, -⟩ := bind_eq_ok.mp adds
    cases units with
    | nil => rcases isBreak with rfl | rfl <;> contradiction
    | cons unit units =>
      have isUnit : unit.toNat = byte.toNat := beq_iff_eq.mp equals
      rw [ReadChar.text, converts]
      rw [filteredConvertAll, isUnit] at converts
      obtain ⟨⟨first, _⟩, starts, further⟩ := bind_eq_ok.mp converts
      obtain ⟨⟨rest, _⟩, -, isBytes⟩ := bind_eq_ok.mp further
      cases isBytes
      refine List.mem_append_left rest ?_
      rcases isBreak with rfl | rfl <;>
      · cases starts
        exact List.mem_cons_self

/-- A line break is written for what is done in a change. -/
theorem exists_breakEntry {char : ReadChar} (isChar : act = .blank char ∨ act = .letter char)
    (isBreak : byte = 10 ∨ byte = 13) (equals : char.equals byte.toNat = true) :
    ∃ label, ∀ {screen after}, act.perform options side screen = .ok after →
      (label, .addchar byte false) ∈ act.entries options side screen := by
  have written : ∀ {label common before after}, addCharData char common before = .ok after →
      (label, .addchar byte false) ∈ charEntries label false char := fun adds =>
    List.mem_map.mpr ⟨byte, break_mem_text isBreak equals adds, rfl⟩
  rcases isChar with rfl | rfl
  · refine ⟨.other, fun performs => List.mem_append_right _ ?_⟩
    obtain ⟨_, adds, -⟩ := bind_eq_ok.mp performs
    exact written adds
  · refine ⟨.letter side, fun performs => List.mem_append_right _ ?_⟩
    obtain ⟨_, adds, -⟩ := bind_eq_ok.mp performs
    obtain ⟨_, -, adds⟩ := bind_eq_ok.mp adds
    exact written adds

/-- The line breaks of a change are paired if it has none. -/
theorem paired_of_plain (plain : ∀ act ∈ acts, ∀ char,
      act = .blank char ∨ act = .letter char → char.equals 10 = false ∧ char.equals 13 = false)
    (carriageReturn : Bool) : lineBreaksPaired carriageReturn true acts = true := by
  induction acts generalizing carriageReturn with
  | nil => rfl
  | cons act acts inductionHypothesis =>
    have later := inductionHypothesis fun act isIn => plain act (List.mem_cons_of_mem _ isIn)
    have here := plain act List.mem_cons_self
    cases act with
    | blank char | letter char =>
      obtain ⟨noFeed, noReturn⟩ := here char (by simp)
      simp [lineBreaksPaired, noFeed, noReturn, later]
    | paragraph char => simp [lineBreaksPaired, later]
    | count side => exact later carriageReturn

/-- Where no line break is written, those of the changes are paired. -/
theorem changes_paired (enacts : Enacts options before scenes after)
    (unbroken : ∀ byte, byte = 10 ∨ byte = 13 →
      .addchar byte false ∉ (entries options before scenes).map Prod.snd) :
    ∀ change ∈ changes options before scenes, lineBreaksPaired change.1 true change.2 = true := by
  intro change isChange
  obtain ⟨scene, isScene, screen, next, -, isChange⟩ := exists_of_mem_trace enacts isChange
  cases scene with
  | common act => contradiction
  | change side acts =>
    obtain rfl := List.mem_singleton.mp isChange
    refine paired_of_plain (fun act isAct char isChar => ?_) _
    have absent : ∀ byte : UInt8, byte = 10 ∨ byte = 13 → char.equals byte.toNat = false := by
      intro byte isBreak
      by_contra equals
      obtain ⟨label, isSaid⟩ := exists_breakEntry isChar isBreak (Bool.not_eq_false _ ▸ equals)
      refine unbroken byte isBreak (List.mem_map.mpr ⟨(label, .addchar byte false), ?_, rfl⟩)
      refine mem_trace_of_mem enacts isScene fun performs => ?_
      obtain ⟨final, folds, -⟩ := bind_eq_ok.mp performs
      refine List.mem_append_left _ (List.mem_append_right _ ?_)
      exact mem_trace_of_mem folds isAct isSaid
    exact ⟨absent 10 (.inl rfl), absent 13 (.inr rfl)⟩

theorem markers_alternate_words :
    ∃ executed, prepareAndExecuteDiff { defaultOptions with repeatMarkers := true } cLocale
        [97, 32, 98] [99] ⟨0, [], [], []⟩ initialPrinting = .ok executed ∧
      ∃ scenes taken, Plays { defaultOptions with repeatMarkers := true } cLocale initialPrinting
          scenes taken executed.state ∧
        Alternates
          (entries { defaultOptions with repeatMarkers := true } initialScreen scenes) := by
  obtain ⟨executed, returns, unbroken⟩ := @exists_of_check _ _
    (prepareAndExecuteDiff { defaultOptions with repeatMarkers := true } cLocale
      [97, 32, 98] [99] ⟨0, [], [], []⟩ initialPrinting) (fun executed => decide
        (.addchar 10 false ∉ executed.state.screen.output ∧
          .addchar 13 false ∉ executed.state.screen.output)) (by decide +kernel)
  obtain ⟨noFeed, noReturn⟩ := of_decide_eq_true unbroken
  obtain ⟨scenes, taken, plays, isOutput, alternates⟩ := markers_alternate_iff rfl rfl returns
  rw [isOutput] at noFeed noReturn
  refine ⟨executed, returns, scenes, taken, plays,
    alternates.mpr (changes_paired plays.screen fun byte isBreak => ?_)⟩
  rcases isBreak with rfl | rfl
  · exact noFeed
  · exact noReturn

/-- Two deleted words with a carriage return between them: the second one is written behind the
stop marker, and another stop marker follows. Two carriage returns before a line feed give two stop
markers. -/
theorem markers_unbalanced :
    (outputs { defaultOptions with repeatMarkers := true } "x\ry".toUTF8.toList
        "z".toUTF8.toList).map Prod.fst = .ok "[-x-]\ry-]\x7b+z+\x7d".toUTF8.toList ∧
      (outputs { defaultOptions with repeatMarkers := true } "x\r\r\ny".toUTF8.toList
        "z".toUTF8.toList).map Prod.fst = .ok "[-x-]\r-]\r\n[-y-]\x7b+z+\x7d".toUTF8.toList := by
  decide +kernel

end Dwdiff
