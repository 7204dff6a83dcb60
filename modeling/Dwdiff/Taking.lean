/-
This file says what the functions that handle one piece of whitespace or one
token take from the temporary files. A file is described by the pieces it holds,
and a state of the printing by how many words of each file were handled, in which
modes, and whether the whitespace of the next word was already read. Reading a
piece is then a step of this description, whatever is printed on the way.
-/

import Dwdiff.DoDiff

namespace Dwdiff

open Outcome
open Failure (OfText)

variable {file : InputFile} {options : Options} {locale : Locale} {track : Track}
  {stream final : Stream} {State : Type} {state : State}
  {body : ReadChar → State → Except Failure State} {pieces : List (List ReadChar)}

/-! ### Printing does not fail on its own -/

theorem onlyIf_meets {allowed : Failure → Prop} {post : State → Prop} {condition : Bool}
    {action : State → Except Failure State}
    (runs : condition = true → Meets allowed post (action state))
    (skips : condition = false → post state) :
    Meets allowed post (onlyIf condition action state) := by
  unfold onlyIf
  cases condition with
  | true => exact runs rfl
  | false => exact skips rfl

theorem onlyIf_ofText {action : State → Except Failure State}
    (meets : Meets OfText (fun _ => True) (action state)) (condition : Bool) :
    Meets OfText (fun _ => True) (onlyIf condition action state) :=
  onlyIf_meets (fun _ => meets) fun _ => trivial

section Screens

variable (options : Options)

theorem addCharData_meets (char : ReadChar) (common : Bool) (screen : Screen) :
    Meets OfText (fun _ => True) (addCharData char common screen) := by
  cases char with
  | single byte => trivial
  | cluster units => exact (filteredConvertAll_meets units 0).bind fun _ _ => trivial

theorem handleWhitespaceChar_meets (print : Bool) (mode : Mode) (char : ReadChar)
    (screen : Screen) :
    Meets OfText (fun _ => True) (handleWhitespaceChar options print mode char screen) := by
  refine (onlyIf_ofText ?_ print).bind fun _ _ => trivial
  exact (addCharData_meets _ _ _).bind fun _ _ => trivial

theorem addTokenChar_meets (mode : Mode) (char : ReadChar) (screen : Screen) :
    Meets OfText (fun _ => True) (addTokenChar options mode char screen) := by
  have struck : Meets OfText (fun _ => True) (overstrike mode char screen) := by
    cases mode with
    | del => trivial
    | add => exact (addCharData_meets _ _ _).bind fun _ _ => trivial
    | common => trivial
    | oldCommon => trivial
  exact (onlyIf_ofText struck _).bind fun _ _ => addCharData_meets _ _ _

theorem handleTokenChar_meets (print : Bool) (mode : Mode) (char : ReadChar) (screen : Screen) :
    Meets OfText (fun _ => True) (handleTokenChar options print mode char screen) := by
  refine (onlyIf_ofText ?_ print).bind fun _ _ => trivial
  exact (addTokenChar_meets options _ _ _).bind fun _ _ => trivial

theorem printCommonChar_meets (char : ReadChar) (screen : Screen) :
    Meets OfText (fun _ => True) (printCommonChar options char screen) :=
  (addCharData_meets _ _ _).bind fun _ _ => trivial

variable (locale : Locale)

/-- A loop over a string in memory ends, and keeps what its body keeps. -/
theorem forString_keeps {invariant : State → Prop} (keeps : ∀ char state, invariant state →
      Meets OfText invariant (body char state)) {fuel : Nat} (enough : stream.weight < fuel)
    (holds : invariant state) :
    Meets OfText invariant (forString options locale body fuel stream state) := by
  induction fuel generalizing stream state with
  | zero => exact absurd enough (Nat.not_lt_zero _)
  | succ fuel inductionHypothesis =>
    unfold forString
    refine (bytes_lawful.readNextChar trivial).bind ?_
    rintro ⟨_ | char, next⟩ ⟨-, less, -⟩
    · exact holds
    · simp only [Option.isSome_some, if_true] at less
      exact (keeps char state holds).bind fun _ kept => inductionHypothesis (by omega) kept

theorem forString_meets (meets : ∀ char state, Meets OfText (fun _ => True) (body char state))
    {fuel : Nat} (enough : stream.weight < fuel) (state : State) :
    Meets OfText (fun _ => True) (forString options locale body fuel stream state) :=
  forString_keeps options locale (fun char state _ => meets char state) enough trivial

theorem printParaDelim_meets (mode : Mode) (screen : Screen) :
    Meets OfText (fun _ => True) (printParaDelim options locale mode screen) :=
  forString_meets options locale (fun _ _ => addCharData_meets _ _ _) (weight_lt_rounds _) screen

end Screens

/-! ### The pieces of a file -/

/-- The stream holds these terminated pieces and nothing else. -/
inductive Holds (options : Options) (locale : Locale) : Stream → List (List ReadChar) → Prop where
  | nil {stream final : Stream} (more : stream.eof ≠ .hit)
      (reads : Reads options locale stream [] .endOfFile final) (ends : final.eof = .hit) :
      Holds options locale stream []
  | cons {stream next : Stream} {piece : List ReadChar} {pieces : List (List ReadChar)}
      (more : stream.eof ≠ .hit) (reads : Reads options locale stream piece .terminator next)
      (rest : Holds options locale next pieces) : Holds options locale stream (piece :: pieces)

theorem Holds.length_lt (holds : Holds options locale stream pieces) :
    pieces.length < stream.rounds := by
  have bounded : pieces.length ≤ stream.weight := by
    induction holds with
    | nil => exact Nat.zero_le _
    | cons more reads rest inductionHypothesis =>
      have less := reads.takes
      rw [List.length_cons]
      omega
  exact Nat.lt_of_le_of_lt bounded (weight_lt_rounds stream)

/-- What is left of a file when `count` pieces were taken. One more than there are means that
the end of the file was found. -/
def Rest (options : Options) (locale : Locale) (pieces : List (List ReadChar)) (count : Nat)
    (stream : Stream) : Prop :=
  if count ≤ pieces.length then Holds options locale stream (pieces.drop count)
  else stream.eof = .hit

theorem Rest.eof_iff {count : Nat} (rest : Rest options locale pieces count stream) :
    stream.eof = .hit ↔ pieces.length < count := by
  unfold Rest at rest
  split at rest
  · next le =>
    refine ⟨fun hit => ?_, fun less => absurd le (by omega)⟩
    generalize pieces.drop count = left at rest
    cases rest with
    | nil more | cons more => exact absurd hit more
  · next less => exact ⟨fun _ => by omega, fun _ => rest⟩

/-- Reading on takes the next piece, or finds the end. -/
theorem Rest.next {count : Nat} (rest : Rest options locale pieces count stream)
    (le : count ≤ pieces.length) :
    ∃ chars pieceEnd final, Reads options locale stream chars pieceEnd final ∧
      (count < pieces.length → pieceEnd = .terminator) ∧
      pieces[count]?.getD [] = chars ∧
      peekPiece options locale stream = pieces[count]? ∧
      Rest options locale pieces (count + 1) final := by
  unfold Rest at rest
  rw [if_pos le] at rest
  have step : pieces[count]? = (pieces.drop count).head? := List.head?_drop.symm
  have tail : pieces.drop (count + 1) = (pieces.drop count).tail := List.tail_drop.symm
  have length : (pieces.drop count).length = pieces.length - count := List.length_drop
  unfold Rest
  rw [step, tail]
  generalize pieces.drop count = left at rest length ⊢
  cases rest with
  | nil more reads ends =>
    rw [List.length_nil] at length
    refine ⟨[], _, _, reads, fun less => absurd length (by omega), rfl, ?_, ?_⟩
    · rw [peekPiece, readPiece_rounds reads]
      rfl
    · rw [if_neg (by omega)]
      exact ends
  | cons more reads rest =>
    rw [List.length_cons] at length
    refine ⟨_, _, _, reads, fun _ => rfl, rfl, ?_, ?_⟩
    · rw [peekPiece, readPiece_rounds reads]
      rfl
    · rw [if_pos (by omega)]
      exact rest

/-- A file that was written in single-byte mode holds its pieces. -/
theorem holds_escaped (singleByte : options.utf8Mode = false) {pieces : List (List UInt8)}
    (isFile : stream.kind = .file) (more : stream.eof ≠ .hit)
    (holds : stream.remaining = pieces.flatMap escaped) :
    Holds options locale stream (pieces.map (List.map .single)) := by
  induction pieces generalizing stream with
  | nil =>
    refine .nil more (.done (nextOfPiece_end singleByte holds)) ?_
    simp [Stream.getChar, show stream.remaining = [] from holds, isFile]
  | cons piece pieces inductionHypothesis =>
    rw [List.flatMap_cons] at holds
    exact .cons more (reads_of_readPiece (readPiece_escaped singleByte (Nat.lt_succ_self _) holds))
      (inductionHypothesis isFile more (advance_remaining stream _ _))

/-! ### Tracks -/

/-- An input as the temporary files give it back: the numbers of its words, the runs of
whitespace, with one behind the last word, and the tokens. -/
structure Text where
  ids : List Nat
  runs : List (List ReadChar)
  tokens : List (List ReadChar)
  runs_length : runs.length = ids.length + 1
  tokens_length : tokens.length = ids.length

/-- A piece taken from the files of one input. -/
inductive Taking where
  | run (piece : Option (List ReadChar))
  | token (mode : Mode) (piece : Option (List ReadChar))
  deriving DecidableEq

/-- The event, when it is about this input. -/
def Event.on (side : Side) : Event → Option Taking
  | .run other piece => if other = side then some (.run piece) else none
  | .token other mode piece => if other = side then some (.token mode piece) else none

theorem Event.on_run (side : Side) (piece : Option (List ReadChar)) :
    (Event.run side piece).on side = some (.run piece) := if_pos rfl

theorem Event.on_run_other (side : Side) (piece : Option (List ReadChar)) :
    (Event.run side piece).on side.other = none := by cases side <;> rfl

theorem Event.on_token (side : Side) (mode : Mode) (piece : Option (List ReadChar)) :
    (Event.token side mode piece).on side = some (.token mode piece) := if_pos rfl

theorem Event.on_token_other (side : Side) (mode : Mode) (piece : Option (List ReadChar)) :
    (Event.token side mode piece).on side.other = none := by cases side <;> rfl

/-- The call of `handleNextToken`, when the event is one. -/
def Event.call : Event → Option (Side × Mode)
  | .run _ _ => none
  | .token side mode _ => some (side, mode)

/-- What was taken from the files of one input. -/
def takings (side : Side) (events : List Event) : List Taking := events.filterMap (Event.on side)

/-- The calls of `handleNextToken`. -/
def tokenCalls (events : List Event) : List (Side × Mode) := events.filterMap Event.call

/-- The whitespace and the token of each word, in the order of the file. -/
def told (text : Text) (modes : List Mode) : List Taking :=
  modes.zipIdx.flatMap fun (mode, index) =>
    [.run text.runs[index]?, .token mode text.tokens[index]?]

theorem told_append (text : Text) (modes : List Mode) (mode : Mode) :
    told text (modes ++ [mode]) = told text modes ++
      [.run text.runs[modes.length]?, .token mode text.tokens[modes.length]?] := by
  simp [told, List.zipIdx_append]

/-- How far an input was handled: the modes of the words whose tokens were taken, whether the
whitespace of the next word was taken as well, and whether it is still in the buffer. -/
structure Track where
  modes : List Mode
  taken : Bool
  buffered : Bool
  printed : Int

/-- The whitespace of the next word, if it was taken. -/
def Track.pending (track : Track) (text : Text) : List Taking :=
  if track.taken then [.run text.runs[track.modes.length]?] else []

/-- The file is where the track says. -/
structure TrackAt (options : Options) (locale : Locale) (text : Text) (track : Track)
    (file : InputFile) (taken : List Taking) : Prop where
  ids : file.diffTokens = text.ids
  tokens : Rest options locale text.tokens track.modes.length file.tokens
  whitespace : Rest options locale text.runs (track.modes.length + track.taken.toNat)
    file.whitespace
  buffered : file.whitespaceBufferUsed = track.buffered
  printed : file.lastPrinted = track.printed
  isTold : taken = told text track.modes ++ track.pending text

section TrackAt

variable {text : Text} {taken : List Taking}

theorem TrackAt.takesRun (isAt : TrackAt options locale text track file taken)
    (fresh : track.taken = false) {used : Bool} :
    taken ++ [.run text.runs[track.modes.length]?] = told text track.modes ++
      { track with taken := true, buffered := used }.pending text := by
  rw [isAt.isTold, Track.pending, fresh]
  simp [Track.pending]

theorem TrackAt.takesToken (isAt : TrackAt options locale text track file taken)
    (isTaken : track.taken = true) (mode : Mode) :
    taken ++ [.token mode text.tokens[track.modes.length]?] =
      told text (track.modes ++ [mode]) ++
        { track with modes := track.modes ++ [mode], taken := false }.pending text := by
  rw [isAt.isTold, Track.pending, isTaken, told_append]
  simp [Track.pending]

end TrackAt

/-- Both files are where their tracks say, and the calls were made in this order. -/
structure Represents (options : Options) (locale : Locale) (texts : Side → Text) (hashMax : Nat)
    (tracks : Side → Track) (calls : List (Side × Mode)) (state : Printing) : Prop where
  files : ∀ side, TrackAt options locale (texts side) (tracks side) (state.file side)
    (takings side state.events)
  calls : tokenCalls state.events = calls
  hashMax : state.baseHashMax = hashMax
  hashtable : state.hashtable = Hashtable.empty

@[simp] theorem file_setFile (state : Printing) (side : Side) (file : InputFile) :
    (state.setFile side file).file = Function.update state.file side file := by
  funext other
  cases side <;> cases other <;> simp [Printing.setFile, Printing.file]

@[simp] theorem file_record (state : Printing) (event : Event) :
    (state.record event).file = state.file := by
  funext side
  cases side <;> rfl

@[simp] theorem takings_append (side : Side) (events more : List Event) :
    takings side (events ++ more) = takings side events ++ takings side more :=
  List.filterMap_append

@[simp] theorem tokenCalls_append (events more : List Event) :
    tokenCalls (events ++ more) = tokenCalls events ++ tokenCalls more :=
  List.filterMap_append

/-! ### Loops over pieces -/

theorem loadChar_meets (char : ReadChar) (loaded : List UInt8 × Bool) :
    Meets OfText (fun _ => True) (loadChar char loaded) := by
  cases char with
  | single byte => trivial
  | cluster units => exact (filteredConvertAll_meets units 0).bind fun _ _ => trivial

/-- A loop over a piece whose body does not fail on its own reads the piece. -/
theorem forPiece_ofText (meets : ∀ char state, Meets OfText (fun _ => True) (body char state))
    {chars : List ReadChar} {pieceEnd : PieceEnd}
    (reads : Reads options locale stream chars pieceEnd final) (state : State) :
    Meets OfText (fun result => result.1 = pieceEnd ∧ result.2.1 = final)
      (forPiece options locale (always body) stream.rounds stream state) := by
  rw [forPiece_always _ reads]
  exact (Meets.foldlM (fun _ _ => True) (fun _ char state _ => meets char state) chars
    trivial).bind fun _ _ => ⟨rfl, rfl⟩

section Guarded

variable {allowed : Failure → Prop} {invariant : State → Prop} {mayStop : Prop}
  {body : ReadChar → State → Except Failure (Bool × State)}

/-- How a loop over a piece was left. -/
def Left (options : Options) (locale : Locale) (mayStop : Prop) (final : Stream)
    (pieceEnd : PieceEnd) (stream : Stream) : Prop :=
  (pieceEnd = .terminator ∧ stream = final) ∨
    (mayStop ∧ pieceEnd = .stopped ∧ ∃ rest, Reads options locale stream rest .terminator final)

/-- The loop over a piece, when it is only known under a condition what the stream holds. -/
theorem forPiece_guarded (ofText : ∀ failure : Failure, failure.OfText → allowed failure)
    (guard : Prop) (keeps : ∀ char state, invariant state →
      Meets allowed (fun result => invariant result.2 ∧ (result.1 = true → mayStop))
        (body char state))
    (reads : guard → ∃ chars, Reads options locale stream chars .terminator final)
    (holds : invariant state) :
    Meets allowed (fun result => invariant result.2.2 ∧
        (guard → Left options locale mayStop final result.1 result.2.1))
      (forPiece options locale body stream.rounds stream state) := by
  by_cases known : guard
  · obtain ⟨chars, reads⟩ := reads known
    exact (forPiece_meets keeps reads reads.length_lt holds).mono fun _ ⟨kept, left⟩ =>
      ⟨kept, fun _ => left⟩
  · exact (forPiece_meets_any ofText (fun char state holds =>
      (keeps char state holds).mono fun _ kept => kept.1) (weight_lt_rounds stream) holds).mono
      fun _ kept => ⟨kept, fun isKnown => absurd isKnown known⟩

theorem always_meets {round : ReadChar → State → Except Failure State} {char : ReadChar}
    (meets : Meets allowed invariant (round char state)) :
    Meets allowed (fun result => invariant result.2 ∧ (result.1 = true → False))
      (always round char state) :=
  meets.bind fun _ kept => ⟨kept, nofun⟩

end Guarded

/-- Where the B file is while the A file is read. -/
def Followed (options : Options) (locale : Locale) (guard : Prop) (final : Stream)
    (state : Screen × Stream × Bool) : Prop :=
  guard → if state.2.2 then ∃ rest, Reads options locale state.2.1 rest .terminator final
    else state.2.1 = final

theorem synchronize_meets {guard : Prop} (sideA sideB : Side) (char : ReadChar)
    {loop : Screen × Stream × Bool} (followed : Followed options locale guard final loop) :
    Meets OfText (Followed options locale guard final)
      (synchronize options locale sideA sideB char loop) := by
  obtain ⟨screen, stream, valid⟩ := loop
  refine (onlyIf_ofText (printCommonChar_meets options char screen) _).bind fun screen _ => ?_
  refine onlyIf_meets (fun _ => ?_) fun _ => followed
  cases valid with
  | false => exact followed
  | true =>
    have lines : ∀ (char : ReadChar) (screen : Screen), True →
        Meets OfText (fun result => True ∧ (result.1 = true → True))
          (toNextLine sideB char screen) := by
      intro char screen _
      unfold toNextLine
      split <;> exact ⟨trivial, fun _ => trivial⟩
    refine (forPiece_guarded (fun _ isText => isText) guard lines followed trivial).bind ?_
    rintro ⟨pieceEnd, stream', screen'⟩ ⟨-, left⟩ known
    rcases left known with ⟨ends, isFinal⟩ | ⟨-, stopped, rest⟩
    · dsimp only at ends isFinal ⊢
      subst ends isFinal
      rfl
    · dsimp only at stopped ⊢
      subst stopped
      exact rest

theorem skipRest_meets {guard : Prop} (sideB : Side) {loop : Screen × Stream × Bool}
    (followed : Followed options locale guard final loop) :
    Meets OfText (fun result => guard → result.2 = final)
      (skipRest options locale sideB loop) := by
  obtain ⟨screen, stream, valid⟩ := loop
  cases valid with
  | false => exact followed
  | true =>
    have lines : ∀ (char : ReadChar) (screen : Screen), True →
        Meets OfText (fun result => True ∧ (result.1 = true → False))
          (always (countLines sideB) char screen) :=
      fun _ _ _ => ⟨trivial, nofun⟩
    refine (forPiece_guarded (fun _ isText => isText) guard lines followed trivial).bind ?_
    rintro ⟨pieceEnd, stream', screen'⟩ ⟨-, left⟩ known
    rcases left known with ⟨-, isFinal⟩ | ⟨impossible, -⟩
    · exact isFinal
    · exact impossible.elim

/-! ### Steps of a track -/

section Represents

variable {texts : Side → Text} {hashMax : Nat} {tracks : Side → Track} {calls : List (Side × Mode)}
  {state : Printing} (represents : Represents options locale texts hashMax tracks calls state)
  {side : Side}

include represents

/-- A step that is about one input leaves the other one alone. -/
theorem Represents.step {file : InputFile} {events : List Event} {calls' : List (Side × Mode)}
    {state' : Printing} (isFile : state'.file = Function.update state.file side file)
    (isEvents : state'.events = state.events ++ events)
    (frame : state'.baseHashMax = state.baseHashMax ∧ state'.hashtable = state.hashtable)
    (aside : takings side.other events = []) (isAt : TrackAt options locale (texts side) track file
      (takings side state.events ++ takings side events))
    (isCalls : calls ++ tokenCalls events = calls') :
    Represents options locale texts hashMax (Function.update tracks side track) calls' state' where
  files := fun other => by
    rw [isFile, isEvents, takings_append]
    by_cases same : other = side
    · subst same
      rw [Function.update_self, Function.update_self]
      exact isAt
    · obtain rfl : other = side.other := by cases side <;> cases other <;> trivial
      rw [Function.update_of_ne same, Function.update_of_ne same, aside, List.append_nil]
      exact represents.files _
  calls := by rw [isEvents, tokenCalls_append, represents.calls, isCalls]
  hashMax := frame.1.trans represents.hashMax
  hashtable := frame.2.trans represents.hashtable

/-- Nothing but the output has changed. -/
theorem Represents.onScreen (change : Screen → Screen) :
    Represents options locale texts hashMax tracks calls (state.onScreen change) :=
  ⟨represents.files, represents.calls, represents.hashMax, represents.hashtable⟩

/-- One of the files has changed, and nothing was taken from it. -/
theorem Represents.setFile
    (isAt : TrackAt options locale (texts side) track file (takings side state.events)) :
    Represents options locale texts hashMax (Function.update tracks side track) calls
      (state.setFile side file) := by
  refine @Represents.step _ _ track _ _ _ _ _ represents side file [] _ _ (file_setFile _ _ _) ?_ ?_
    rfl ?_ (List.append_nil _)
  · rw [List.append_nil]
    cases side <;> rfl
  · cases side <;> exact ⟨rfl, rfl⟩
  · rw [show takings side [] = [] from rfl, List.append_nil]
    exact isAt

/-- Something was taken from one of the files. -/
theorem Represents.take {event : Event} {taking : Taking} (isOn : event.on side = some taking)
    (isAside : event.on side.other = none) (isAt : TrackAt options locale (texts side) track file
      (takings side state.events ++ [taking])) :
    Represents options locale texts hashMax (Function.update tracks side track)
      (calls ++ event.call.toList) ((state.setFile side file).record event) := by
  refine @Represents.step _ _ track _ _ _ _ _ represents side file [event] _ _ ?_ ?_ ?_ ?_ ?_ ?_
  · rw [file_record, file_setFile]
  · cases side <;> rfl
  · cases side <;> exact ⟨rfl, rfl⟩
  · simp [takings, isAside]
  · rw [show takings side [event] = [taking] by simp [takings, isOn]]
    exact isAt
  · cases isCall : event.call <;> simp [tokenCalls, isCall]

theorem Represents.takeRun {piece : Option (List ReadChar)}
    (isAt : TrackAt options locale (texts side) track file
      (takings side state.events ++ [.run piece])) :
    Represents options locale texts hashMax (Function.update tracks side track) calls
      ((state.setFile side file).record (.run side piece)) := by
  have taken := represents.take (Event.on_run side piece) (Event.on_run_other side piece) isAt
  rwa [Event.call, Option.toList_none, List.append_nil] at taken

/-- `lastPrinted++`. -/
theorem Represents.advance (isTrack : tracks side = track) :
    Represents options locale texts hashMax
      (Function.update tracks side { track with printed := track.printed + 1 }) calls
      (state.advance side) := by
  have isAt := represents.files side
  rw [isTrack] at isAt
  exact represents.setFile ⟨isAt.ids, isAt.tokens, isAt.whitespace, isAt.buffered,
    congrArg (· + 1) isAt.printed, isAt.isTold⟩

/-- `handleNextWhitespace` reads the next run, or what was loaded of it. -/
theorem handleNextWhitespace_represents (isTrack : tracks side = track)
    (loaded : track.taken = track.buffered) (le : track.modes.length ≤ (texts side).ids.length)
    (print : Bool) (mode : Mode) :
    Meets OfText (Represents options locale texts hashMax
        (Function.update tracks side { track with taken := true, buffered := false }) calls)
      (handleNextWhitespace options locale side print mode state) := by
  have isAt := represents.files side
  rw [isTrack] at isAt
  unfold handleNextWhitespace
  dsimp only
  rw [isAt.buffered]
  cases isBuffered : track.buffered with
  | true =>
    rw [isBuffered] at loaded
    refine (forString_meets options locale (handleWhitespaceChar_meets options print mode)
      (weight_lt_rounds _) _).bind fun screen _ => ?_
    refine (represents.onScreen fun _ => screen).setFile ⟨isAt.ids, isAt.tokens, ?_, rfl,
      isAt.printed, ?_⟩
    · rw [← loaded]
      exact isAt.whitespace
    · show takings side state.events = _
      rw [isAt.isTold, Track.pending, loaded]
      rfl
  | false =>
    rw [isBuffered] at loaded
    have rest := isAt.whitespace
    rw [loaded, Bool.toNat_false, add_zero] at rest
    obtain ⟨chars, pieceEnd, final, reads, -, -, peeks, left⟩ :=
      rest.next (by rw [(texts side).runs_length]; omega)
    rw [peeks]
    refine (forPiece_ofText (handleWhitespaceChar_meets options print mode) reads _).bind ?_
    rintro ⟨last, stream, screen⟩ ⟨-, isFinal⟩
    obtain rfl : stream = final := isFinal
    exact (represents.onScreen fun _ => screen).takeRun ⟨isAt.ids, isAt.tokens, left, rfl,
      isAt.printed, isAt.takesRun loaded⟩

/-- `loadNextWhitespace` reads the next run into the buffer. -/
theorem loadNextWhitespace_represents (isTrack : tracks side = track) (fresh : track.taken = false)
    (le : track.modes.length ≤ (texts side).ids.length) :
    Meets OfText (fun result => Represents options locale texts hashMax
        (Function.update tracks side { track with taken := true, buffered := true }) calls result.2)
      (loadNextWhitespace options locale side state) := by
  have isAt := represents.files side
  rw [isTrack] at isAt
  unfold loadNextWhitespace
  dsimp only
  have rest := isAt.whitespace
  rw [fresh, Bool.toNat_false, add_zero] at rest
  obtain ⟨chars, pieceEnd, final, reads, -, -, peeks, left⟩ :=
    rest.next (by rw [(texts side).runs_length]; omega)
  rw [peeks]
  refine (forPiece_ofText loadChar_meets reads _).bind ?_
  rintro ⟨last, stream, buffer, newlineFound⟩ ⟨-, isFinal⟩
  obtain rfl : stream = final := isFinal
  exact represents.takeRun ⟨isAt.ids, isAt.tokens, left, rfl, isAt.printed, isAt.takesRun fresh⟩

/-- `handleNextToken` reads the next token, or finds the end of the tokens. -/
theorem handleNextToken_represents (isTrack : tracks side = track) (isTaken : track.taken = true)
    (le : track.modes.length ≤ (texts side).ids.length) (print : Bool) (mode : Mode) :
    Meets OfText (Represents options locale texts hashMax
        (Function.update tracks side
          { track with modes := track.modes ++ [mode], taken := false })
        (calls ++ [(side, mode)]))
      (handleNextToken options locale side print mode state) := by
  have isAt := represents.files side
  rw [isTrack] at isAt
  unfold handleNextToken
  dsimp only
  obtain ⟨chars, pieceEnd, final, reads, -, -, peeks, left⟩ :=
    isAt.tokens.next (by rw [(texts side).tokens_length]; exact le)
  have rounds : ∀ char loop, Meets OfText (fun _ => True)
      (handleTokenRound options print mode char loop) := fun char loop =>
    (handleTokenChar_meets options print mode char loop.2).bind fun _ _ => trivial
  rw [peeks]
  refine (forPiece_ofText rounds reads _).bind ?_
  rintro ⟨last, stream, empty, screen⟩ ⟨-, isFinal⟩
  obtain rfl : stream = final := isFinal
  refine (onlyIf_ofText (printParaDelim_meets options locale mode screen) _).bind fun screen _ => ?_
  have whitespace := isAt.whitespace
  rw [isTaken, Bool.toNat_true] at whitespace
  exact (represents.onScreen fun _ => screen).take (Event.on_token side mode _)
    (Event.on_token_other side mode _) ⟨isAt.ids, by rw [List.length_append]; exact left,
      by rw [List.length_append]; exact whitespace, isAt.buffered, isAt.printed,
      isAt.takesToken isTaken mode⟩

/-- A file after its whitespace was read, unless it was loaded before. -/
theorem afterWhitespace_represents (isTrack : tracks side = track)
    (loaded : track.taken = track.buffered) (le : track.modes.length ≤ (texts side).ids.length)
    (rest : track.buffered = false →
      Rest options locale (texts side).runs (track.modes.length + 1) stream) :
    Represents options locale texts hashMax
      (Function.update tracks side { track with taken := true }) calls
      (state.afterWhitespace options locale side stream) := by
  have isAt := represents.files side
  rw [isTrack] at isAt
  unfold Printing.afterWhitespace
  dsimp only
  cases isBuffered : track.buffered with
  | true =>
    rw [isBuffered] at loaded
    have same : ({ track with taken := true, buffered := true } : Track) = tracks side := by
      rw [isTrack]
      obtain ⟨modes, taken, buffered, printed⟩ := track
      dsimp only at loaded isBuffered
      subst loaded isBuffered
      rfl
    rw [if_pos (isAt.buffered.trans isBuffered), same, Function.update_eq_self]
    exact represents
  | false =>
    rw [isBuffered] at loaded
    have whitespace := isAt.whitespace
    rw [loaded, Bool.toNat_false, add_zero] at whitespace
    obtain ⟨-, -, -, -, -, -, peeks, -⟩ := whitespace.next (by rw [(texts side).runs_length]; omega)
    rw [if_neg (by rw [isAt.buffered, isBuffered]; exact Bool.false_ne_true), peeks]
    exact represents.takeRun ⟨isAt.ids, isAt.tokens, rest isBuffered,
      isAt.buffered.trans isBuffered, isAt.printed, isAt.takesRun loaded⟩

/-- `handleSynchronizedNextWhitespace` reads the next run of each file that was not loaded. -/
theorem handleSynchronizedNextWhitespace_represents
    (loaded : ∀ side, (tracks side).taken = (tracks side).buffered)
    (le : ∀ side, (tracks side).modes.length ≤ (texts side).ids.length) (printNew : Bool) :
    Meets OfText (Represents options locale texts hashMax
        (fun side => { tracks side with taken := true }) calls)
      (handleSynchronizedNextWhitespace options locale printNew state) := by
  have next : ∀ side, ∃ final,
      ((tracks side).buffered = false → (∃ chars, Reads options locale
        (state.file side).whitespaceStream chars .terminator final) ∧
        Rest options locale (texts side).runs ((tracks side).modes.length + 1) final) := by
    intro side
    have isAt := represents.files side
    cases isBuffered : (tracks side).buffered with
    | true => exact ⟨(state.file side).whitespace, nofun⟩
    | false =>
      have rest := isAt.whitespace
      rw [loaded side, isBuffered, Bool.toNat_false, add_zero] at rest
      obtain ⟨chars, pieceEnd, final, reads, ends, -, -, left⟩ :=
        rest.next (by rw [(texts side).runs_length]; have := le side; omega)
      rw [ends (by rw [(texts side).runs_length]; have := le side; omega)] at reads
      refine ⟨final, fun _ => ⟨⟨chars, ?_⟩, left⟩⟩
      rw [InputFile.whitespaceStream, isAt.buffered, isBuffered]
      exact reads
  unfold handleSynchronizedNextWhitespace
  dsimp only
  generalize (if printNew then Side.new else Side.old) = sideA
  obtain ⟨finalA, nextA⟩ := next sideA
  obtain ⟨finalB, nextB⟩ := next sideA.other
  have startsB : Followed options locale ((tracks sideA.other).buffered = false) finalB
      (state.screen, (state.file sideA.other).whitespaceStream, true) :=
    fun known => (nextB known).1
  refine (forPiece_guarded (fun _ isText => isText) ((tracks sideA).buffered = false)
    (fun char loop followed => always_meets (synchronize_meets sideA sideA.other char followed))
    (fun known => (nextA known).1) startsB).bind ?_
  rintro ⟨pieceEnd, streamA, loop⟩ ⟨followed, left⟩
  refine (skipRest_meets sideA.other followed).bind ?_
  rintro ⟨screen, streamB⟩ isFinalB
  have finishedA : (tracks sideA).buffered = false → streamA = finalA := by
    intro known
    rcases left known with ⟨-, isFinal⟩ | ⟨impossible, -⟩
    · exact isFinal
    · exact impossible.elim
  have differs : sideA.other ≠ sideA := by cases sideA <;> nofun
  have restA : (tracks sideA).buffered = false → Rest options locale (texts sideA).runs
      ((tracks sideA).modes.length + 1) streamA := fun known => by
    rw [finishedA known]
    exact (nextA known).2
  have restB : (tracks sideA.other).buffered = false → Rest options locale (texts sideA.other).runs
      ((tracks sideA.other).modes.length + 1) streamB := fun known => by
    rw [show streamB = finalB from isFinalB known]
    exact (nextB known).2
  have readA := afterWhitespace_represents (represents.onScreen fun _ => screen) rfl
    (loaded sideA) (le sideA) restA
  have readB := afterWhitespace_represents readA (Function.update_of_ne differs _ _)
    (loaded sideA.other) (le sideA.other) restB
  have both : Function.update (Function.update tracks sideA { tracks sideA with taken := true })
      sideA.other { tracks sideA.other with taken := true } =
      fun side => { tracks side with taken := true } := by
    funext side
    cases sideA <;> cases side <;> rfl
  rw [both] at readB
  exact readB

end Represents

end Dwdiff
