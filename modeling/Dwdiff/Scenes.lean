/-
This file describes a run by what it does to the screen. Outside of changes it
writes common text, counts lines and writes the rules that separate changes. A
change is one scene: the start marker, the whitespace, tokens and paragraph
markers of one mode, and the stop marker. It proves that every run that returns is
the performance of a list of scenes, and that the letters and paragraph markers of
the scenes are those of the inserted and deleted tokens that were taken.
-/

import Dwdiff.Program
import Dwdiff.Words

namespace Dwdiff

open Diff Outcome

variable {options : Options} {locale : Locale} {side : Side} {first second third : Screen}
  {mode : Mode} {print : Bool}

/-! ### Scenes -/

/-- What is done outside of changes. -/
inductive CommonAct where
  | text (char : ReadChar)
  | count (side : Side)
  | rule (string : String) (fresh : Bool)
  deriving DecidableEq

/-- What is done inside of a change. -/
inductive ChangeAct where
  | blank (char : ReadChar)
  | letter (char : ReadChar)
  | paragraph (char : ReadChar)
  | count (side : Side)
  deriving DecidableEq

/-- A part of a run. The words of a change are those of one file. -/
inductive Scene where
  | common (act : CommonAct)
  | change (side : Side) (acts : List ChangeAct)
  deriving DecidableEq

section Perform

variable (options : Options)

def CommonAct.perform (screen : Screen) : CommonAct → Except Failure Screen
  | .text char => printCommonChar options char screen
  | .count side => .ok (countLine side screen)
  | .rule string fresh =>
    .ok { screen.emit (.puts string) with lastWasLinefeed := fresh || screen.lastWasLinefeed }

def ChangeAct.perform (side : Side) (screen : Screen) : ChangeAct → Except Failure Screen
  | .blank char => printWhitespaceChar options (changedMode side) char screen
  | .letter char => printTokenChar options (changedMode side) char screen
  | .paragraph char =>
    addCharData char (changedMode side != .add) (doPostLinefeed options (changedMode side) screen)
  | .count side => .ok (countLine side screen)

/-- The screen behind the start marker. -/
def raiseCurtain (side : Side) (screen : Screen) : Screen :=
  startWords options (changedMode side) (doPostLinefeed options .common screen)

/-- The screen behind the stop marker. -/
def lowerCurtain (side : Side) (screen : Screen) : Screen :=
  stopWords options (changedMode side) (doPostLinefeed options (changedMode side) screen)

def Scene.perform (screen : Screen) : Scene → Except Failure Screen
  | .common act => act.perform options screen
  | .change side acts => do
    let screen ← acts.foldlM (ChangeAct.perform options side) (raiseCurtain options side screen)
    .ok (lowerCurtain options side screen)

/-- The scenes lead from one screen to another. -/
def Enacts (before : Screen) (scenes : List Scene) (after : Screen) : Prop :=
  scenes.foldlM (Scene.perform options) before = .ok after

end Perform

theorem Enacts.append {scenes more : List Scene} (enacts : Enacts options first scenes second)
    (enacts' : Enacts options second more third) : Enacts options first (scenes ++ more) third := by
  rw [Enacts, List.foldlM_append, enacts]
  exact enacts'

/-- The screen only changes by what is done outside of changes. -/
def Outside (options : Options) (before after : Screen) : Prop :=
  ∃ acts : List CommonAct, Enacts options before (acts.map .common) after

theorem Outside.refl (screen : Screen) : Outside options screen screen := ⟨[], rfl⟩

theorem Outside.trans (outside : Outside options first second)
    (outside' : Outside options second third) : Outside options first third := by
  obtain ⟨acts, enacts⟩ := outside
  obtain ⟨more, enacts'⟩ := outside'
  exact ⟨acts ++ more, by rw [List.map_append]; exact enacts.append enacts'⟩

instance : IsTrans Screen (Outside options) := ⟨fun _ _ _ => Outside.trans⟩

theorem Outside.of_perform {act : CommonAct} (performs : act.perform options first = .ok second) :
    Outside options first second := by
  refine ⟨[act], ?_⟩
  rw [Enacts, List.map_singleton, List.foldlM_cons]
  exact bind_eq_ok.mpr ⟨second, performs, rfl⟩

theorem Outside.count (side : Side) (screen : Screen) :
    Outside options screen (countLine side screen) :=
  @Outside.of_perform options screen _ (.count side) rfl

/-! ### Characters -/

/-- Whitespace, tokens and synchronized whitespace are printed alike when they are common. -/
theorem printWhitespaceChar_common (common : mode.isCommon = true) (char : ReadChar)
    (screen : Screen) :
    printWhitespaceChar options mode char screen = printCommonChar options char screen := by
  cases mode with
  | add | del => contradiction
  | common =>
    unfold printWhitespaceChar printCommonChar beforeLineBreak
    simp [Mode.isCommon]
  | oldCommon =>
    unfold printWhitespaceChar printCommonChar beforeLineBreak doPostLinefeed
    simp [Mode.isCommon]

theorem printTokenChar_common (char : ReadChar) (screen : Screen) :
    printTokenChar options .common char screen = printCommonChar options char screen := by
  have struck : ∀ condition screen,
      onlyIf condition (overstrike .common char) screen = .ok screen := by
    intro condition screen
    cases condition <;> rfl
  unfold printTokenChar printCommonChar addTokenChar beforeLineBreak
  simp [Mode.isCommon, struck]

theorem printCommonChar_outside (char : ReadChar) :
    Leads (Outside options) (printCommonChar options char) := by
  intro screen
  cases isPrinted : printCommonChar options char screen with
  | error failure => trivial
  | ok after => exact @Outside.of_perform options screen after (.text char) isPrinted

theorem countWhitespaceLine_eq (mode : Mode) (char : ReadChar) (screen : Screen) :
    ∃ sides : List Side, countWhitespaceLine mode char screen =
      sides.foldl (fun screen side => countLine side screen) screen := by
  unfold countWhitespaceLine
  split
  · cases mode with
    | add => exact ⟨[.new], rfl⟩
    | del => exact ⟨[.old], rfl⟩
    | common => exact ⟨[.new], rfl⟩
    | oldCommon => exact ⟨[.old], rfl⟩
  · exact ⟨[], rfl⟩

theorem countTokenLine_eq (mode : Mode) (char : ReadChar) (screen : Screen) :
    ∃ sides : List Side, countTokenLine mode char screen =
      sides.foldl (fun screen side => countLine side screen) screen := by
  unfold countTokenLine
  split
  · cases mode with
    | add => exact ⟨[.new], rfl⟩
    | del => exact ⟨[.old], rfl⟩
    | common => exact ⟨[.old, .new], rfl⟩
    | oldCommon => exact ⟨[], rfl⟩
  · exact ⟨[], rfl⟩

theorem countLines_outside (sides : List Side) (screen : Screen) :
    Outside options screen (sides.foldl (fun screen side => countLine side screen) screen) := by
  induction sides generalizing screen with
  | nil => exact Outside.refl screen
  | cons side sides inductionHypothesis =>
    exact (Outside.count side screen).trans (inductionHypothesis _)

/-- Whitespace that is common or not printed. -/
theorem handleWhitespaceChar_outside (aside : print = true → mode.isCommon = true)
    (char : ReadChar) : Leads (Outside options) (handleWhitespaceChar options print mode char) := by
  intro screen
  have printed : Meets (fun _ => True) (Outside options screen)
      (onlyIf print (printWhitespaceChar options mode char) screen) := by
    refine onlyIf_meets (fun prints => ?_) fun _ => Outside.refl screen
    rw [printWhitespaceChar_common (aside prints)]
    exact printCommonChar_outside char screen
  refine printed.followed fun after => ?_
  obtain ⟨sides, counts⟩ := countWhitespaceLine_eq mode char after
  exact counts ▸ countLines_outside sides after

/-- A token that is common or not printed. -/
theorem handleTokenChar_outside (aside : print = true → mode = .common) (char : ReadChar) :
    Leads (Outside options) (handleTokenChar options print mode char) := by
  intro screen
  have printed : Meets (fun _ => True) (Outside options screen)
      (onlyIf print (printTokenChar options mode char) screen) := by
    refine onlyIf_meets (fun prints => ?_) fun _ => Outside.refl screen
    rw [aside prints, printTokenChar_common]
    exact printCommonChar_outside char screen
  refine printed.followed fun after => ?_
  obtain ⟨sides, counts⟩ := countTokenLine_eq mode char after
  exact counts ▸ countLines_outside sides after

/-! ### What was told -/

/-- The token, when it is a changed word of this file. -/
def Event.changed (side : Side) : Event → Option (Option (List ReadChar))
  | .run _ _ => none
  | .token other mode piece => if other = side ∧ mode = changedMode side then some piece else none

/-- The changed words of a file that were taken. -/
def changedTokens (side : Side) (events : List Event) : List (Option (List ReadChar)) :=
  events.filterMap (Event.changed side)

def ChangeAct.asLetter : ChangeAct → Option ReadChar
  | .letter char => some char
  | _ => none

def ChangeAct.asParagraph : ChangeAct → Option ReadChar
  | .paragraph char => some char
  | _ => none

/-- What is done with the changed words of a file. -/
def Scene.acts (side : Side) : Scene → List ChangeAct
  | .common _ => []
  | .change other acts => if other = side then acts else []

section Told

variable (options : Options) (locale : Locale)

/-- The characters of a string in memory. -/
def stringChars (string : List UInt8) : Except Failure (List ReadChar) :=
  let stream := newStringStream string
  forString options locale (fun char chars => .ok (chars ++ [char])) stream.rounds stream []

/-- The characters of the paragraph marker. -/
def markerChars : List ReadChar :=
  match stringChars options locale options.paraDelimMarker with
  | .ok chars => chars
  | .error _ => []

/-- The letters are those of the words, and each empty word is a paragraph. -/
structure Spoken (side : Side) (acts : List ChangeAct) (tokens : List (Option (List ReadChar))) :
    Prop where
  letters : shows options side = true → none ∉ tokens →
    acts.filterMap ChangeAct.asLetter = (tokens.map fun token => token.getD []).flatten
  paragraphs : acts.filterMap ChangeAct.asParagraph =
    if options.paraDelim && shows options side then
      (tokens.filter fun token => token == some []).flatMap fun _ => markerChars options locale
    else []

/-- The scenes lead from one state to another, while these pieces are taken. -/
structure Plays (state : Printing) (scenes : List Scene) (taken : List Event) (final : Printing) :
    Prop where
  screen : Enacts options state.screen scenes final.screen
  events : final.events = state.events ++ taken
  spoken : ∀ side, Spoken options locale side (scenes.flatMap (Scene.acts side))
    (changedTokens side taken)

/-- One state leads to another by some scenes. -/
def Played (state final : Printing) : Prop :=
  ∃ scenes taken, Plays options locale state scenes taken final

end Told

section Played

variable {first second third : Printing}

theorem Spoken.nil : Spoken options locale side [] [] :=
  ⟨fun _ _ => rfl, by split <;> rfl⟩

theorem Spoken.unseen (unseen : shows options side = false)
    (tokens : List (Option (List ReadChar))) : Spoken options locale side [] tokens := by
  refine ⟨fun shown => ?_, ?_⟩
  · rw [unseen] at shown
    contradiction
  · rw [unseen, Bool.and_false]
    rfl

theorem Spoken.append {acts more : List ChangeAct} {tokens others : List (Option (List ReadChar))}
    (spoken : Spoken options locale side acts tokens)
    (spoken' : Spoken options locale side more others) :
    Spoken options locale side (acts ++ more) (tokens ++ others) := by
  refine ⟨fun shown whole => ?_, ?_⟩
  · rw [List.mem_append, not_or] at whole
    rw [List.filterMap_append, spoken.letters shown whole.1, spoken'.letters shown whole.2,
      List.map_append, List.flatten_append]
  · rw [List.filterMap_append, spoken.paragraphs, spoken'.paragraphs, List.filter_append,
      List.flatMap_append]
    split <;> rfl

theorem changedTokens_append (side : Side) (events more : List Event) :
    changedTokens side (events ++ more) = changedTokens side events ++ changedTokens side more :=
  List.filterMap_append

theorem Played.refl (state : Printing) : Played options locale state state :=
  ⟨[], [], rfl, (List.append_nil _).symm, fun _ => Spoken.nil⟩

theorem Played.trans (played : Played options locale first second)
    (played' : Played options locale second third) : Played options locale first third := by
  obtain ⟨scenes, taken, enacts, isEvents, spoken⟩ := played
  obtain ⟨more, others, enacts', isEvents', spoken'⟩ := played'
  refine ⟨scenes ++ more, taken ++ others, enacts.append enacts', ?_, fun side => ?_⟩
  · rw [isEvents', isEvents, List.append_assoc]
  · rw [List.flatMap_append, changedTokens_append]
    exact (spoken side).append (spoken' side)

instance : IsTrans Printing (Played options locale) := ⟨fun _ _ _ => Played.trans⟩

/-- Nothing is told outside of changes. -/
theorem Played.of_outside {taken : List Event}
    (outside : Outside options first.screen second.screen)
    (isEvents : second.events = first.events ++ taken)
    (untold : ∀ side, shows options side = true → changedTokens side taken = []) :
    Played options locale first second := by
  obtain ⟨acts, enacts⟩ := outside
  refine ⟨acts.map .common, taken, enacts, isEvents, fun side => ?_⟩
  have none : (acts.map Scene.common).flatMap (Scene.acts side) = [] := by
    rw [List.flatMap_map]
    exact List.flatMap_eq_nil_iff.mpr fun _ _ => rfl
  rw [none]
  cases shown : shows options side with
  | false => exact Spoken.unseen shown _
  | true =>
    rw [untold side shown]
    exact Spoken.nil

/-- A change of the state that is not seen. -/
theorem Played.of_eq (sameScreen : second.screen = first.screen)
    (sameEvents : second.events = first.events) : Played options locale first second :=
  Played.of_outside (by rw [sameScreen]; exact Outside.refl _)
    (by rw [sameEvents]; exact (List.append_nil _).symm) fun _ _ => rfl

end Played

/-! ### Loops -/

section Loops

variable {State : Type}

/-- A loop that reads a whole piece has read the characters of the piece. -/
theorem forPiece_reads (body : ReadChar → State → Except Failure State) (fuel : Nat)
    (stream : Stream) (state : State) :
    Meets (fun _ => True) (fun result => ∃ chars,
        Reads options locale stream chars result.1 result.2.1 ∧
        chars.foldlM (fun state char => body char state) state = Except.ok result.2.2)
      (forPiece options locale (always body) fuel stream state) := by
  induction fuel generalizing stream state with
  | zero => trivial
  | succ fuel inductionHypothesis =>
    unfold forPiece
    cases next : nextOfPiece options locale stream with
    | error failure => trivial
    | ok result =>
      obtain ⟨char | pieceEnd, after⟩ := result
      · rw [ok_bind]
        unfold always
        dsimp only
        cases isBody : body char state with
        | error failure => trivial
        | ok state' =>
          refine (inductionHypothesis after state').mono ?_
          rintro result ⟨chars, reads, folds⟩
          refine ⟨char :: chars, .more next reads, ?_⟩
          rw [List.foldlM_cons, isBody]
          exact folds
      · exact ⟨[], .done next, rfl⟩

/-- A loop over a string has read its characters. -/
theorem forString_reads (body : ReadChar → State → Except Failure State) (fuel : Nat)
    (stream : Stream) (state : State) :
    Meets (fun _ => True) (fun final => ∃ chars,
        (∀ collected, forString options locale (fun char chars => .ok (chars ++ [char])) fuel stream
          collected = .ok (collected ++ chars)) ∧
        chars.foldlM (fun state char => body char state) state = Except.ok final)
      (forString options locale body fuel stream state) := by
  induction fuel generalizing stream state with
  | zero => trivial
  | succ fuel inductionHypothesis =>
    unfold forString
    cases next : readNextChar options locale stream with
    | error failure => trivial
    | ok result =>
      obtain ⟨char, after⟩ := result
      cases char with
      | none => exact ⟨[], fun collected => by rw [List.append_nil]; rfl, rfl⟩
      | some char =>
        rw [ok_bind]
        dsimp only
        cases isBody : body char state with
        | error failure => trivial
        | ok state' =>
          refine (inductionHypothesis after state').mono ?_
          rintro final ⟨chars, collects, folds⟩
          refine ⟨char :: chars, fun collected => ?_, ?_⟩
          · rw [ok_bind, List.append_cons]
            exact collects _
          · rw [List.foldlM_cons, isBody]
            exact folds

/-- A loop whose rounds are outside of changes. -/
theorem forPiece_outside (screenOf : State → Screen)
    {body : ReadChar → State → Except Failure (Bool × State)}
    (round : ∀ char state, Meets (fun _ => True)
      (fun result => Outside options (screenOf state) (screenOf result.2)) (body char state))
    (stream : Stream) (state : State) :
    Meets (fun _ => True) (fun result => Outside options (screenOf state) (screenOf result.2.2))
      (forPiece options locale body stream.rounds stream state) :=
  @forPiece_meets_any State options locale stream (fun _ => True)
    (fun next => Outside options (screenOf state) (screenOf next)) body (fun _ _ => trivial)
    (fun char next outside => (round char next).mono fun _ outside' => outside.trans outside')
    _ (weight_lt_rounds stream) state (Outside.refl _)

theorem forString_outside {body : ReadChar → Screen → Except Failure Screen}
    (round : ∀ char, Leads (Outside options) (body char)) (fuel : Nat) (stream : Stream) :
    Leads (Outside options) (forString options locale body fuel stream) := by
  intro screen
  refine (forString_reads body fuel stream screen).mono ?_
  rintro final ⟨chars, -, folds⟩
  exact (Meets.foldlM (fun _ => Outside options screen) (fun _ char next outside =>
    (round char next).after outside) chars (Outside.refl screen)).of_ok folds

end Loops

/-! ### Outside of changes -/

theorem always_round {State : Type} {post : State → Prop}
    {body : ReadChar → State → Except Failure State} {char : ReadChar} {state : State}
    (meets : Meets (fun _ => True) post (body char state)) :
    Meets (fun _ => True) (fun result => post result.2) (always body char state) :=
  meets.bind fun _ met => met

theorem onScreen_played {state : Printing} {change : Screen → Screen}
    (outside : Outside options state.screen (change state.screen)) :
    Played options locale state (state.onScreen change) :=
  @Played.of_outside options locale state _ [] outside (List.append_nil _).symm fun _ _ => rfl

@[simp] theorem setFile_screen (state : Printing) (side : Side) (file : InputFile) :
    (state.setFile side file).screen = state.screen := by
  cases side <;> rfl

@[simp] theorem setFile_events (state : Printing) (side : Side) (file : InputFile) :
    (state.setFile side file).events = state.events := by
  cases side <;> rfl

/-- A piece was taken, and the screen only changed outside of changes. -/
theorem Played.of_taken {state : Printing} {screen : Screen} {file : InputFile} {event : Event}
    (outside : Outside options state.screen screen)
    (untold : ∀ other, shows options other = true → event.changed other = none) :
    Played options locale state
      ((({ state with screen := screen } : Printing).setFile side file).record event) := by
  refine @Played.of_outside options locale state _ [event] ?_ ?_ fun other shown => ?_
  · cases side <;> exact outside
  · cases side <;> rfl
  · rw [changedTokens, List.filterMap_cons, untold other shown]
    rfl

/-- Whitespace that is common or not printed. -/
theorem handleNextWhitespace_played {side : Side} {print : Bool} {mode : Mode}
    (aside : print = true → mode.isCommon = true) :
    Leads (Played options locale) (handleNextWhitespace options locale side print mode) := by
  intro state
  unfold handleNextWhitespace
  dsimp only
  split
  · refine (forString_outside (handleWhitespaceChar_outside aside) _ _ _).bind
      fun screen outside => ?_
    refine @Played.of_outside options locale state _ [] ?_ ?_ fun _ _ => rfl
    · rw [setFile_screen]
      exact outside
    · rw [setFile_events]
      exact (List.append_nil _).symm
  · refine (forPiece_outside id (fun char screen =>
      always_round (handleWhitespaceChar_outside aside char screen)) _ _).bind ?_
    rintro ⟨pieceEnd, stream, screen⟩ outside
    exact Played.of_taken outside fun _ _ => rfl

theorem toNextLine_outside (side : Side) (char : ReadChar) (screen : Screen) :
    Meets (fun _ => True) (fun result => Outside options screen result.2)
      (toNextLine side char screen) := by
  unfold toNextLine
  split
  · exact Outside.count side screen
  · exact Outside.refl screen

theorem countLines_round (side : Side) (char : ReadChar) :
    Leads (Outside options) (countLines side char) := by
  intro screen
  show Outside options screen _
  split
  · exact Outside.count side screen
  · exact Outside.refl screen

theorem followLine_outside (sideA sideB : Side) (loop : Screen × Stream × Bool) :
    Meets (fun _ => True) (fun next => Outside options loop.1 next.1)
      (followLine options locale sideA sideB loop) := by
  obtain ⟨screen, stream, valid⟩ := loop
  cases valid with
  | false => exact Outside.count sideA screen
  | true =>
    refine (@forPiece_outside options locale Screen id _ (toNextLine_outside sideB) _ _).bind
      fun result outside => ?_
    exact (Outside.count sideA screen).trans outside

theorem synchronize_outside (sideA sideB : Side) (char : ReadChar)
    (loop : Screen × Stream × Bool) :
    Meets (fun _ => True) (fun next => Outside options loop.1 next.1)
      (synchronize options locale sideA sideB char loop) := by
  have printed : Meets (fun _ => True) (Outside options loop.1)
      (onlyIf options.printCommon (printCommonChar options char) loop.1) :=
    onlyIf_meets (fun _ => printCommonChar_outside char loop.1) fun _ => Outside.refl loop.1
  refine printed.bind fun screen outside => ?_
  refine onlyIf_meets (fun _ => ?_) fun _ => outside
  exact (followLine_outside sideA sideB (screen, loop.2)).mono fun _ => outside.trans

theorem skipRest_outside (sideB : Side) (loop : Screen × Stream × Bool) :
    Meets (fun _ => True) (fun result => Outside options loop.1 result.1)
      (skipRest options locale sideB loop) := by
  obtain ⟨screen, stream, valid⟩ := loop
  cases valid with
  | false => exact Outside.refl screen
  | true =>
    exact (@forPiece_outside options locale Screen id _ (fun char screen =>
      always_round (countLines_round sideB char screen)) _ _).bind fun _ outside => outside

theorem afterWhitespace_played (state : Printing) (side : Side) (stream : Stream) :
    Played options locale state (state.afterWhitespace options locale side stream) := by
  unfold Printing.afterWhitespace
  dsimp only
  split
  · exact Played.refl state
  · exact Played.of_taken (Outside.refl state.screen) fun _ _ => rfl

/-- Synchronized whitespace. -/
theorem handleSynchronizedNextWhitespace_played (printNew : Bool) :
    Leads (Played options locale) (handleSynchronizedNextWhitespace options locale printNew) := by
  intro state
  unfold handleSynchronizedNextWhitespace
  dsimp only
  refine (forPiece_outside (fun loop : Screen × Stream × Bool => loop.1)
    (fun char loop => always_round (synchronize_outside _ _ char loop)) _ _).bind ?_
  rintro ⟨pieceEnd, stream, loop⟩ outside
  refine (skipRest_outside _ loop).bind ?_
  rintro ⟨screen, streamB⟩ outside'
  have shown : Played options locale state { state with screen := screen } :=
    @onScreen_played options locale state (fun _ => screen) (outside.trans outside')
  exact (shown.trans (afterWhitespace_played _ _ _)).trans (afterWhitespace_played _ _ _)

/-- A token that is common or not printed. -/
theorem handleNextToken_played {side : Side} {print : Bool} {mode : Mode}
    (aside : print = true → mode = .common)
    (unseen : mode = changedMode side → shows options side = false) :
    Leads (Played options locale) (handleNextToken options locale side print mode) := by
  intro state
  have round : ∀ char (loop : Bool × Screen), Meets (fun _ => True)
      (fun next => Outside options loop.2 next.2)
      (handleTokenRound options print mode char loop) := fun char loop =>
    (handleTokenChar_outside aside char loop.2).bind fun _ outside => outside
  unfold handleNextToken
  dsimp only
  refine (forPiece_outside (fun loop : Bool × Screen => loop.2)
    (fun char loop => always_round (round char loop)) _ _).bind ?_
  rintro ⟨pieceEnd, stream, empty, screen⟩ outside
  refine (onlyIf_meets (fun marks => ?_) fun _ => outside).bind fun screen' outside' => ?_
  · simp only [Bool.and_eq_true, bne_iff_ne] at marks
    exact absurd (aside marks.1.1.2) marks.2
  · refine Played.of_taken outside' fun other shown => if_neg ?_
    rintro ⟨rfl, isChanged⟩
    rw [unseen isChanged] at shown
    contradiction

/-- A common word. -/
theorem handleCommonWord_played (print : Bool) :
    Leads (Played options locale) (handleCommonWord options locale print) := by
  intro state
  refine (handleSynchronizedNextWhitespace_played _ state).followed fun first => ?_
  have forgotten : Played options locale first { first with lastWasDelete := false } :=
    Played.of_eq rfl rfl
  refine Meets.after forgotten ?_
  refine (@handleNextToken_played options locale .new print .common (fun _ => rfl) nofun
    _).followed ?_
  exact @handleNextToken_played options locale .old false .oldCommon nofun nofun

/-! ### Inside of changes -/

/-- The acts lead from one screen to another. -/
def Inside (options : Options) (side : Side) (before : Screen) (acts : List ChangeAct)
    (after : Screen) : Prop :=
  acts.foldlM (ChangeAct.perform options side) before = .ok after

theorem Inside.append {acts more : List ChangeAct} (inside : Inside options side first acts second)
    (inside' : Inside options side second more third) :
    Inside options side first (acts ++ more) third := by
  rw [Inside, List.foldlM_append, inside]
  exact inside'

theorem Inside.of_perform {act : ChangeAct}
    (performs : act.perform options side first = .ok second) :
    Inside options side first [act] second := by
  rw [Inside, List.foldlM_cons]
  exact bind_eq_ok.mpr ⟨second, performs, rfl⟩

theorem Inside.counts (sides : List Side) (screen : Screen) :
    Inside options side screen (sides.map .count)
      (sides.foldl (fun screen side => countLine side screen) screen) := by
  induction sides generalizing screen with
  | nil => rfl
  | cons other sides inductionHypothesis => exact inductionHypothesis _

theorem filterMap_counts {Value : Type} {choose : ChangeAct → Option Value}
    (ignores : ∀ side, choose (.count side) = none) (sides : List Side) :
    (sides.map ChangeAct.count).filterMap choose = [] := by
  rw [List.filterMap_map]
  exact List.filterMap_eq_nil_iff.mpr fun other _ => ignores other

/-- Whitespace inside of a change. -/
theorem whitespace_inside (chars : List ReadChar) (screen : Screen) :
    Meets (fun _ => True) (fun after => ∃ acts, Inside options side screen acts after ∧
        acts.filterMap ChangeAct.asLetter = [] ∧ acts.filterMap ChangeAct.asParagraph = [])
      (chars.foldlM (fun screen char =>
        handleWhitespaceChar options true (changedMode side) char screen) screen) := by
  refine Meets.foldlM (fun _ after => ∃ acts, Inside options side screen acts after ∧
    acts.filterMap ChangeAct.asLetter = [] ∧ acts.filterMap ChangeAct.asParagraph = [])
    (fun _ char before so => ?_) chars ⟨[], rfl, rfl, rfl⟩
  obtain ⟨acts, inside, noLetters, noParagraphs⟩ := so
  show Meets _ _ (printWhitespaceChar options (changedMode side) char before >>= _)
  cases isPrinted : printWhitespaceChar options (changedMode side) char before with
  | error failure => trivial
  | ok after =>
    obtain ⟨sides, counts⟩ := countWhitespaceLine_eq (changedMode side) char after
    have round : Inside options side before (.blank char :: sides.map .count)
        (countWhitespaceLine (changedMode side) char after) :=
      (@Inside.of_perform options side _ _ (.blank char) isPrinted).append
        (counts ▸ Inside.counts sides after)
    refine ⟨acts ++ .blank char :: sides.map .count, inside.append round, ?_, ?_⟩
    · rw [List.filterMap_append, noLetters]
      exact filterMap_counts (fun _ => rfl) sides
    · rw [List.filterMap_append, noParagraphs]
      exact filterMap_counts (fun _ => rfl) sides

/-- The letters of a token inside of a change. -/
theorem letters_inside (chars : List ReadChar) (screen : Screen) :
    Meets (fun _ => True) (fun loop => loop.1 = chars.isEmpty ∧
        ∃ acts, Inside options side screen acts loop.2 ∧
          acts.filterMap ChangeAct.asLetter = chars ∧ acts.filterMap ChangeAct.asParagraph = [])
      (chars.foldlM (fun loop char => handleTokenRound options true (changedMode side) char loop)
        (true, screen)) := by
  refine Meets.foldlM (fun chars (loop : Bool × Screen) => loop.1 = chars.isEmpty ∧
    ∃ acts, Inside options side screen acts loop.2 ∧
      acts.filterMap ChangeAct.asLetter = chars ∧ acts.filterMap ChangeAct.asParagraph = [])
    (fun chars char loop so => ?_) chars ⟨rfl, [], rfl, rfl, rfl⟩
  obtain ⟨-, acts, inside, isLetters, noParagraphs⟩ := so
  have round : Meets (fun _ => True) (fun after => ∃ sides : List Side,
      Inside options side loop.2 (.letter char :: sides.map .count) after)
      (handleTokenChar options true (changedMode side) char loop.2) := by
    show Meets _ _ (printTokenChar options (changedMode side) char loop.2 >>= _)
    cases isPrinted : printTokenChar options (changedMode side) char loop.2 with
    | error failure => trivial
    | ok after =>
      obtain ⟨sides, counts⟩ := countTokenLine_eq (changedMode side) char after
      exact ⟨sides, (@Inside.of_perform options side _ _ (.letter char) isPrinted).append
        (counts ▸ Inside.counts sides after)⟩
  refine round.bind ?_
  rintro after ⟨sides, inside'⟩
  refine ⟨by simp, acts ++ .letter char :: sides.map .count, inside.append inside', ?_, ?_⟩
  · rw [List.filterMap_append, isLetters]
    exact congrArg (chars ++ char :: ·) (filterMap_counts (fun _ => rfl) sides)
  · rw [List.filterMap_append, noParagraphs]
    exact filterMap_counts (fun _ => rfl) sides

/-- The marker of a paragraph. -/
theorem printParaDelim_inside (screen : Screen) :
    Meets (fun _ => True)
      (Inside options side screen ((markerChars options locale).map .paragraph))
      (printParaDelim options locale (changedMode side) screen) := by
  refine (forString_reads _ _ _ screen).mono ?_
  rintro after ⟨chars, collects, folds⟩
  have isMarker : markerChars options locale = chars := by
    unfold markerChars stringChars
    rw [collects []]
    rfl
  rw [isMarker, Inside, List.foldlM_map]
  exact folds

/-! ### The words of a change -/

/-- The acts lead from one state to another, while these pieces are taken. -/
structure Speaks (options : Options) (locale : Locale) (side : Side) (state : Printing)
    (acts : List ChangeAct) (taken : List Event) (final : Printing) : Prop where
  screen : Inside options side state.screen acts final.screen
  events : final.events = state.events ++ taken
  spoken : Spoken options locale side acts (changedTokens side taken)
  other : changedTokens side.other taken = []

/-- One state leads to another inside of a change. -/
def Spoke (options : Options) (locale : Locale) (side : Side) (state final : Printing) : Prop :=
  ∃ acts taken, Speaks options locale side state acts taken final

theorem Spoke.refl (state : Printing) : Spoke options locale side state state :=
  ⟨[], [], rfl, (List.append_nil _).symm, Spoken.nil, rfl⟩

theorem Spoke.trans {first second third : Printing}
    (spoke : Spoke options locale side first second)
    (spoke' : Spoke options locale side second third) :
    Spoke options locale side first third := by
  obtain ⟨acts, taken, inside, isEvents, spoken, other⟩ := spoke
  obtain ⟨more, others, inside', isEvents', spoken', other'⟩ := spoke'
  refine ⟨acts ++ more, taken ++ others, inside.append inside', ?_, ?_, ?_⟩
  · rw [isEvents', isEvents, List.append_assoc]
  · rw [changedTokens_append]
    exact spoken.append spoken'
  · rw [changedTokens_append, other, other']
    rfl

instance : IsTrans Printing (Spoke options locale side) := ⟨fun _ _ _ => Spoke.trans⟩

theorem Spoken.mute {acts : List ChangeAct} (noLetters : acts.filterMap ChangeAct.asLetter = [])
    (noParagraphs : acts.filterMap ChangeAct.asParagraph = []) :
    Spoken options locale side acts [] := by
  refine ⟨fun _ _ => noLetters, noParagraphs.trans ?_⟩
  split <;> rfl

theorem handleNextWhitespace_spoke : Leads (Spoke options locale side)
    (handleNextWhitespace options locale side true (changedMode side)) := by
  intro state
  unfold handleNextWhitespace
  dsimp only
  split
  · refine (forString_reads _ _ _ _).bind ?_
    rintro screen ⟨chars, -, folds⟩
    obtain ⟨acts, inside, noLetters, noParagraphs⟩ :=
      (whitespace_inside chars state.screen).of_ok folds
    refine ⟨acts, [], ?_, ?_, Spoken.mute noLetters noParagraphs, rfl⟩
    · rw [setFile_screen]
      exact inside
    · rw [setFile_events]
      exact (List.append_nil _).symm
  · refine (forPiece_reads _ _ _ _).bind ?_
    rintro ⟨pieceEnd, stream, screen⟩ ⟨chars, -, folds⟩
    obtain ⟨acts, inside, noLetters, noParagraphs⟩ :=
      (whitespace_inside chars state.screen).of_ok folds
    refine ⟨acts, [.run side (peekPiece options locale (state.file side).whitespace)], ?_, ?_,
      Spoken.mute noLetters noParagraphs, rfl⟩
    · cases side <;> exact inside
    · cases side <;> rfl

theorem changed_token (side : Side) (piece : Option (List ReadChar)) :
    changedTokens side [.token side (changedMode side) piece] = [piece] ∧
      changedTokens side.other [.token side (changedMode side) piece] = [] := by
  cases side <;> exact ⟨rfl, rfl⟩

/-- A word of which the marker of a paragraph is not printed. -/
theorem Spoken.word {acts : List ChangeAct} {chars : List ReadChar} {pieceEnd : PieceEnd}
    (isLetters : acts.filterMap ChangeAct.asLetter = chars)
    (noParagraphs : acts.filterMap ChangeAct.asParagraph = [])
    (unmarked : options.paraDelim = true → pieceEnd = .terminator → chars ≠ []) :
    Spoken options locale side acts [if pieceEnd = .terminator then some chars else none] := by
  by_cases ends : pieceEnd = .terminator
  · rw [if_pos ends]
    refine ⟨fun _ _ => ?_, noParagraphs.trans ?_⟩
    · rw [isLetters, List.map_singleton, List.flatten_singleton]
      rfl
    · split
      · rename_i delimits
        rw [List.filter_eq_nil_iff.mpr]
        · rfl
        · intro token isToken
          rw [List.mem_singleton] at isToken
          rw [isToken, beq_iff_eq, Option.some.injEq]
          exact unmarked (Bool.and_eq_true_iff.mp delimits).1 ends
      · rfl
  · rw [if_neg ends]
    refine ⟨fun _ whole => absurd (List.mem_singleton.mpr rfl) whole, noParagraphs.trans ?_⟩
    split <;> rfl

/-- A paragraph. -/
theorem Spoken.paragraph {acts : List ChangeAct} (shown : shows options side = true)
    (delimits : options.paraDelim = true) (noLetters : acts.filterMap ChangeAct.asLetter = [])
    (noParagraphs : acts.filterMap ChangeAct.asParagraph = []) :
    Spoken options locale side (acts ++ (markerChars options locale).map .paragraph)
      [some []] := by
  refine ⟨fun _ _ => ?_, ?_⟩
  · rw [List.filterMap_append, noLetters, List.filterMap_map]
    exact List.filterMap_eq_nil_iff.mpr fun _ _ => rfl
  · rw [List.filterMap_append, noParagraphs, List.filterMap_map, delimits, shown]
    show (markerChars options locale).filterMap some = _
    rw [List.filterMap_some]
    exact (List.append_nil _).symm

/-- A changed word is spoken. -/
theorem handleNextToken_spoke (shown : shows options side = true) :
    Leads (Spoke options locale side)
      (handleNextToken options locale side true (changedMode side)) := by
  intro state
  have changed : (changedMode side != .common) = true := by cases side <;> rfl
  unfold handleNextToken
  dsimp only
  refine (forPiece_reads _ _ _ _).bind ?_
  rintro ⟨pieceEnd, stream, empty, screen⟩ ⟨chars, reads, folds⟩
  obtain ⟨isEmpty, acts, inside, isLetters, noParagraphs⟩ :=
    (letters_inside chars state.screen).of_ok folds
  dsimp only at isEmpty inside reads ⊢
  have isPiece : peekPiece options locale (state.file side).tokens =
      if pieceEnd = .terminator then some chars else none := by
    unfold peekPiece
    rw [readPiece_rounds reads]
    cases pieceEnd <;> rfl
  have taken : ∀ {acts screen}, Inside options side state.screen acts screen →
      Spoken options locale side acts [if pieceEnd = .terminator then some chars else none] →
      Spoke options locale side state ((({ state with screen := screen } : Printing).setFile side
        { state.file side with tokens := stream }).record (.token side (changedMode side)
          (peekPiece options locale (state.file side).tokens))) := by
    intro acts screen inside spoken
    rw [isPiece]
    refine ⟨acts, [.token side (changedMode side)
      (if pieceEnd = .terminator then some chars else none)], ?_, ?_, ?_, (changed_token side _).2⟩
    · cases side <;> exact inside
    · cases side <;> rfl
    · rw [(changed_token side _).1]
      exact spoken
  rw [changed, Bool.and_true, Bool.and_true, isEmpty, onlyIf]
  split
  · rename_i marks
    simp only [Bool.and_eq_true, beq_iff_eq, List.isEmpty_iff] at marks
    obtain ⟨⟨rfl, delimits⟩, rfl⟩ := marks
    refine (printParaDelim_inside screen).bind fun screen' inside' => ?_
    exact taken (inside.append inside') (Spoken.paragraph shown delimits isLetters noParagraphs)
  · rename_i unmarked
    refine taken inside (Spoken.word isLetters noParagraphs fun delimits ends isNil => ?_)
    rw [delimits, ends, isNil] at unmarked
    exact unmarked rfl

theorem advance_spoke (state : Printing) : Spoke options locale side state (state.advance side) :=
  ⟨[], [], by cases side <;> rfl, by cases side <;> exact (List.append_nil _).symm, Spoken.nil, rfl⟩

/-- The words up to a position, when each of them adds to a relation. -/
theorem handleWord_leads {related : Printing → Printing → Prop} [IsTrans Printing related]
    (self : ∀ state, related state state)
    (word : Leads related (handleOneWord options locale side print mode)) (idx : Int) (fuel : Nat) :
    Leads related (handleWord options locale side print mode idx fuel) := by
  induction fuel with
  | zero =>
    intro state
    unfold handleWord
    split
    · trivial
    · exact self state
  | succ fuel inductionHypothesis =>
    intro state
    unfold handleWord
    split
    · exact (word state).followed inductionHypothesis
    · exact self state

theorem handleWord_spoke (shown : shows options side = true) (idx : Int) (fuel : Nat) :
    Leads (Spoke options locale side)
      (handleWord options locale side true (changedMode side) idx fuel) := by
  refine handleWord_leads Spoke.refl (fun state => ?_) idx fuel
  refine (handleNextWhitespace_spoke state).followed fun first => ?_
  exact (handleNextToken_spoke shown first).followed advance_spoke

/-- The words of a change are one scene. -/
theorem Played.of_spoke {first second : Printing}
    (spoke : Spoke options locale side
      (first.onScreen fun screen => raiseCurtain options side screen) second) :
    Played options locale first
      (second.onScreen fun screen => lowerCurtain options side screen) := by
  obtain ⟨acts, taken, inside, isEvents, spoken, other⟩ := spoke
  refine ⟨[.change side acts], taken, ?_, isEvents, fun side' => ?_⟩
  · rw [Enacts, List.foldlM_cons]
    exact bind_eq_ok.mpr ⟨_, bind_eq_ok.mpr ⟨second.screen, inside, rfl⟩, rfl⟩
  · have isActs : [Scene.change side acts].flatMap (Scene.acts side') =
        if side = side' then acts else [] := List.append_nil _
    rw [isActs]
    by_cases same : side = side'
    · rw [if_pos same, ← same]
      exact spoken
    · obtain rfl : side' = side.other := by
        revert same
        cases side <;> cases side' <;> simp [Side.other]
      rw [if_neg same, other]
      exact Spoken.nil

theorem advance_played (state : Printing) (side : Side) :
    Played options locale state (state.advance side) := by
  cases side <;> exact Played.of_eq rfl rfl

/-- Words that are not printed. -/
theorem handleWord_played (unseen : shows options side = false) (idx : Int) (fuel : Nat) :
    Leads (Played options locale)
      (handleWord options locale side false (changedMode side) idx fuel) := by
  refine handleWord_leads Played.refl (fun state => ?_) idx fuel
  refine (@handleNextWhitespace_played options locale side false _ nofun state).followed
    fun first => ?_
  exact (@handleNextToken_played options locale side false _ nofun (fun _ => unseen)
    first).followed fun second => advance_played second side

/-- The words of a change, as `printWords` handles them. -/
theorem printWords_played (start count : Int) : Leads (Played options locale)
    (printWords options locale start count side (shows options side) (changedMode side)) := by
  intro state
  have common : (changedMode side).plusCommon.isCommon = true := by cases side <;> rfl
  unfold printWords
  refine (meets_any (assert ((state.file side).lastPrinted == start) _)).bind fun _ _ => ?_
  refine (handleNextWhitespace_played (fun _ => common) state).bind fun first played => ?_
  cases shown : shows options side with
  | true =>
    refine (handleNextToken_spoke shown _).bind fun second spoke => ?_
    refine (handleWord_spoke shown _ _ _).bind fun third spoke' => ?_
    exact played.trans (Played.of_spoke ((spoke.trans (advance_spoke second)).trans spoke'))
  | false =>
    refine Meets.after played ?_
    refine (@handleNextToken_played options locale side false _ nofun (fun _ => shown)
      (first.onScreen fun screen => screen)).followed fun second => ?_
    exact Meets.after (advance_played second side)
      ((handleWord_played shown _ _ _).followed Played.refl)

/-! ### Runs -/

theorem loadNextWhitespace_played (side : Side) (state : Printing) :
    Meets (fun _ => True) (fun result => Played options locale state result.2)
      (loadNextWhitespace options locale side state) := by
  unfold loadNextWhitespace
  dsimp only
  refine (forPiece_reads _ _ _ _).bind fun result _ => ?_
  exact Played.of_taken (Outside.refl state.screen) fun _ _ => rfl

theorem prepareWhitespace_played (state : Printing) :
    Meets (fun _ => True) (fun result => Played options locale state result.2)
      (prepareWhitespace options locale state) := by
  unfold prepareWhitespace
  refine (loadNextWhitespace_played .old state).bind ?_
  rintro ⟨oldNewline, first⟩ played
  cases oldNewline with
  | false => exact played
  | true =>
    refine (loadNextWhitespace_played .new first).bind ?_
    rintro ⟨newNewline, second⟩ played'
    cases newNewline with
    | false => exact played.trans played'
    | true =>
      refine (handleSynchronizedNextWhitespace_played _ second).bind fun third played'' => ?_
      exact ((played.trans played').trans played'').trans (Played.of_eq rfl rfl)

theorem printChangedWords_played (reverseDeleteAdd : Bool) (command : Command) (change : Change) :
    Leads (Played options locale)
      (printChangedWords options locale reverseDeleteAdd command change) := by
  intro state
  have deleted : Leads (Played options locale) (printDeletedWords options locale change) :=
    @printWords_played options locale .old _ _
  have added : Leads (Played options locale) (printAddedWords options locale change) :=
    @printWords_played options locale .new _ _
  unfold printChangedWords
  split
  · exact (added state).followed deleted
  · have first : Meets (fun _ => True) (Played options locale state)
        (onlyIf (command != .add) (printDeletedWords options locale change) state) :=
      onlyIf_meets (fun _ => deleted state) fun _ => Played.refl state
    refine first.followed fun next => ?_
    exact onlyIf_meets (fun _ => added next) fun _ => Played.refl next

theorem finishChange_played (command : Command) (change : Change) (state : Printing) :
    Played options locale state (finishChange options command change state) := by
  have shown : Played options locale state (state.onScreen fun screen =>
      if options.needMarkers then
        { screen.emit (.puts ("\n" ++ markerLine)) with lastWasLinefeed := true }
      else screen) := by
    refine onScreen_played ?_
    split
    · exact @Outside.of_perform options state.screen _ (.rule ("\n" ++ markerLine) true) rfl
    · exact Outside.refl state.screen
  exact shown.trans (Played.of_eq rfl rfl)

theorem printDifference_played (command : Command) (change : Change) :
    Leads (Played options locale) (printDifference options locale command change) := by
  intro state
  have loads : Meets (fun _ => True) (fun result => Played options locale state result.2)
      (loadWhitespace options locale command state) := by
    unfold loadWhitespace
    split
    · exact prepareWhitespace_played state
    · exact Played.refl state
  refine loads.bind fun result played => ?_
  refine Meets.after played ?_
  exact (printChangedWords_played result.1 command change result.2).followed
    (finishChange_played command change)

theorem printToCommonWord_played (idx : Int) (fuel : Nat) :
    Leads (Played options locale) (printToCommonWord options locale idx fuel) := by
  have word : Leads (Played options locale) (printCommonWord options locale) := fun state =>
    (handleCommonWord_played _ state).followed fun _ => Played.of_eq rfl rfl
  induction fuel with
  | zero =>
    intro state
    unfold printToCommonWord
    split
    · trivial
    · exact Played.refl state
  | succ fuel inductionHypothesis =>
    intro state
    unfold printToCommonWord
    split
    · exact (word state).followed inductionHypothesis
    · exact Played.refl state

theorem printChange_played (command : Command) (change : Change) :
    Leads (Played options locale) (printChange options locale command change) := fun state =>
  (printToCommonWord_played _ _ state).followed (printDifference_played command change)

theorem doChanges_played {recurse : Range → Nat → Printing → Except Failure Printing}
    (recursion : ∀ range context, Leads (Played options locale) (recurse range context))
    (baseRange : Option Range) (context : Nat) (changes : List Change) :
    Leads (Played options locale)
      (doChanges options locale recurse baseRange context changes) := by
  have round : ∀ change, Leads (Played options locale)
      (doChange options locale recurse baseRange context change) := by
    intro change state
    have noticed : Played options locale state { state with differences := 1 } :=
      Played.of_eq rfl rfl
    unfold doChange
    dsimp only
    split
    · refine (meets_any (trimChange context (inBase baseRange change))).bind fun result _ => ?_
      split
      · exact Meets.after noticed (recursion _ _ _)
      · exact Meets.after noticed (printChange_played _ _ _)
    · exact Meets.after noticed (printChange_played _ _ _)
  induction changes with
  | nil => exact Played.refl
  | cons change changes inductionHypothesis =>
    exact fun state => (round change state).followed inductionHypothesis

theorem doDiffInternal_played (depth : Nat) (baseRange : Option Range) (context : Nat) :
    Leads (Played options locale) (doDiffInternal options locale depth baseRange context) := by
  induction depth generalizing baseRange context with
  | zero => exact fun _ => trivial
  | succ depth inductionHypothesis =>
    intro state
    unfold doDiffInternal
    refine (meets_any (compareRange options state.baseHashMax state.oldFile.diffTokens
      state.newFile.diffTokens baseRange context state.hashtable)).bind fun result _ => ?_
    · have shown : Played options locale state
          ({ state with hashtable := result.2.2 }.onScreen fun screen =>
            screen.emitIf (options.needMarkers && baseRange.isNone) (.puts markerLine)) := by
        have stored : Played options locale state { state with hashtable := result.2.2 } :=
          Played.of_eq rfl rfl
        refine stored.trans (onScreen_played ?_)
        unfold Screen.emitIf
        split
        · exact @Outside.of_perform options _ _ (.rule markerLine false) rfl
        · exact Outside.refl _
      exact Meets.after shown (doChanges_played (fun _ => inductionHypothesis _) _ _ _ _)

theorem printEnd_played : Leads (Played options locale) (printEnd options locale) := by
  have loop : ∀ fuel, Leads (Played options locale) (printEndLoop options locale fuel) := by
    intro fuel
    induction fuel with
    | zero => exact fun _ => trivial
    | succ fuel inductionHypothesis =>
      intro state
      rw [printEndLoop_succ]
      split
      · exact Played.refl state
      · refine (handleCommonWord_played true state).followed fun next => ?_
        have stepped : Played options locale next (next.step .ending) := Played.of_eq rfl rfl
        exact Meets.after stepped (inductionHypothesis _)
  intro state
  unfold printEnd
  split
  · exact loop _ state
  · exact Played.refl state

/-- Every run is the performance of some scenes. -/
theorem doDiff_played : Leads (Played options locale) (doDiff options locale) := by
  intro state
  have rewound : Played options locale state state.rewound := Played.of_eq rfl rfl
  exact Meets.after rewound ((doDiffInternal_played _ _ _ _).followed printEnd_played)

/-- The same for a pair of input files. -/
theorem prepareAndExecuteDiff_played (old new : List UInt8) (charData : CharData)
    (state : Printing) :
    Meets (fun _ => True) (fun executed => Played options locale state executed.state)
      (prepareAndExecuteDiff options locale old new charData state) := by
  unfold prepareAndExecuteDiff
  refine (meets_any (readFile options locale old charData state.hashtable)).bind
    fun oldResult _ => ?_
  refine (meets_any (readFile options locale new oldResult.2.charData
    oldResult.2.hashtable)).bind fun newResult _ => ?_
  have filled : Played options locale state (state.filled oldResult.2 newResult.2) :=
    Played.of_eq rfl rfl
  exact (doDiff_played _).bind fun final played => filled.trans played

end Dwdiff
