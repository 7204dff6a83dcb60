/-
This file models how `doDiff.c` reads the temporary files back. All its loops
have one form: characters are read up to a NUL or the end of the stream, a 1
makes the next character a literal one, and something is done with each
character. The loop is therefore given once, with what is done as a parameter,
and what it reads is described without it.
-/

import Dwdiff.ReadFile
import Dwdiff.Library.Outcome

namespace Dwdiff

open Outcome

variable {State : Type} {options : Options} {locale : Locale} {stream : Stream}

/-- What `readNextChar` leaves in `charData`: a byte, or a cluster in UTF-8 mode. -/
inductive ReadChar where
  | single (byte : UInt8)
  | cluster (units : List UInt16)
  deriving DecidableEq, Repr

/-- `charDataEquals`. -/
def ReadChar.equals : ReadChar → Nat → Bool
  | .single byte, c => byte.toNat == c
  | .cluster units, c => (units.headD 0).toNat == c

def readNextChar {Source : Type} [StreamVtable Source] (options : Options) (locale : Locale)
    (stream : Stream Source) : Except Failure (Option ReadChar × Stream Source) :=
  if options.utf8Mode then do
    let (cluster, stream) ← getBackspaceCluster locale stream
    .ok (cluster.map .cluster, stream)
  else do
    let (byte, stream) ← StreamVtable.getChar stream
    .ok (byte.map .single, stream)

/-- Why a loop over a piece of a file has ended. -/
inductive PieceEnd where
  | terminator
  | endOfFile
  | stopped
  deriving DecidableEq, Repr

section Loop

variable {Source : Type} [StreamVtable Source] (options : Options) (locale : Locale)

/-- One round of such a loop: the next character of the piece, unescaped, or why it ends. -/
def nextOfPiece (stream : Stream Source) :
    Except Failure ((ReadChar ⊕ PieceEnd) × Stream Source) := do
  let (char, stream) ← readNextChar options locale stream
  match char with
  | none => .ok (.inr .endOfFile, stream)
  | some char =>
    if char.equals 0 then .ok (.inr .terminator, stream)
    else if char.equals 1 then do
      let (char, stream) ← readNextChar options locale stream
      match char with
      | none => .error (.fatal "Error reading back input\n")
      | some char => .ok (.inl char, stream)
    else .ok (.inl char, stream)

/-- The loop over a piece of a file. The body answers whether the loop is left. -/
def forPiece (body : ReadChar → State → Except Failure (Bool × State)) :
    Nat → Stream Source → State → Except Failure (PieceEnd × Stream Source × State)
  | 0, _, _ => .error .diverges
  | fuel + 1, stream, state => do
    let (next, stream) ← nextOfPiece options locale stream
    match next with
    | .inr pieceEnd => .ok (pieceEnd, stream, state)
    | .inl char => do
      let (stop, state) ← body char state
      if stop then .ok (.stopped, stream, state) else forPiece body fuel stream state

/-- A body that never leaves the loop. -/
def always (body : ReadChar → State → Except Failure State) (char : ReadChar)
    (state : State) : Except Failure (Bool × State) := do
  let state ← body char state
  .ok (false, state)

/-- More rounds than a loop over a piece of the stream can have. -/
def Stream.rounds (stream : Stream Source) : Nat := StreamVtable.supply stream.source + 3

/-- The characters of the next piece of a stream, and how it ends. -/
def readPiece : Nat → Stream Source → Except Failure (List ReadChar × PieceEnd × Stream Source)
  | 0, _ => .error .diverges
  | fuel + 1, stream => do
    let (next, stream) ← nextOfPiece options locale stream
    match next with
    | .inr pieceEnd => .ok ([], pieceEnd, stream)
    | .inl char => do
      let (chars, pieceEnd, stream) ← readPiece fuel stream
      .ok (char :: chars, pieceEnd, stream)

/-- The terminated pieces of a stream, read up to its end. -/
def readPieces : Nat → Stream → Except Failure (List (List ReadChar))
  | 0, _ => .error .diverges
  | fuel + 1, stream => do
    let (chars, pieceEnd, stream) ← readPiece options locale stream.rounds stream
    match pieceEnd with
    | .terminator => do
      let pieces ← readPieces fuel stream
      .ok (chars :: pieces)
    | _ => .ok []

end Loop

/-! ### Every character takes something from the stream -/

section Laws

open Failure (OfText)

variable {Source : Type} [StreamVtable Source] {Keeps : Source → Source → Prop}
  {Finished : Source → Prop} (lawful : Lawful Keeps Finished) {stream : Stream Source}
  (reading : Keeps stream.source stream.source)

theorem weight_lt_rounds (stream : Stream Source) : stream.weight < stream.rounds := by
  unfold Stream.weight Stream.load Stream.rounds
  split <;> split <;> omega

/-- What is left behind a loop over a piece: less than before, or the end. -/
structure Passed (Keeps : Source → Source → Prop) (Finished : Source → Prop)
    (stream after : Stream Source) : Prop where
  keeps : Keeps stream.source after.source
  most : after.weight ≤ stream.weight
  less : after.weight < stream.weight ∨ Finished after.source

include lawful reading

theorem Lawful.readNextChar :
    Meets OfText (fun result => Keeps stream.source result.2.source ∧
        result.2.weight + (if result.1.isSome then 1 else 0) ≤ stream.weight ∧
        (result.1 = none → Finished result.2.source))
      (Dwdiff.readNextChar options locale stream) := by
  unfold Dwdiff.readNextChar
  split
  · refine (lawful.getClusterInternal reading locale _).bind
      fun (cluster, next) ⟨keeps, less, finished⟩ => ?_
    refine ⟨keeps, ?_, fun isNone => finished (Option.map_eq_none_iff.mp isNone)⟩
    rw [Option.isSome_map]
    exact less
  · refine (lawful.getChar reading).bind ?_
    rintro ⟨byte, _⟩ ⟨source, rfl, keeps, less, finished⟩
    refine ⟨keeps, ?_, fun isNone => finished (Option.map_eq_none_iff.mp isNone)⟩
    rw [Option.isSome_map, Stream.weight, Stream.weight, Stream.load, Stream.load]
    dsimp only at less ⊢
    omega

theorem Lawful.nextOfPiece :
    Meets OfText (fun result => Keeps stream.source result.2.source ∧
        result.2.weight + (if result.1 = .inr .endOfFile then 0 else 1) ≤ stream.weight ∧
        (result.1 = .inr .endOfFile → Finished result.2.source))
      (Dwdiff.nextOfPiece options locale stream) := by
  unfold Dwdiff.nextOfPiece
  refine (lawful.readNextChar reading).bind ?_
  rintro ⟨_ | char, next⟩ ⟨keeps, less, finished⟩
  · exact ⟨keeps, less, fun _ => finished rfl⟩
  · simp only [Option.isSome_some, if_true] at less
    dsimp only
    split
    · exact ⟨keeps, less, nofun⟩
    · split
      · refine (lawful.readNextChar (lawful.again keeps)).bind ?_
        rintro ⟨_ | char', last⟩ ⟨keeps', less', -⟩
        · exact Or.inr (Or.inr (Or.inr rfl))
        · simp only [Option.isSome_some, if_true] at less'
          exact ⟨lawful.trans keeps keeps', Nat.le_trans less' (Nat.le_of_lt less), nofun⟩
      · exact ⟨keeps, less, nofun⟩

/-- The loop over a piece, with an invariant that follows the stream. It ends, because every
character takes something. -/
theorem Lawful.forPiece {allowed : Failure → Prop} {invariant : Stream Source → State → Prop}
    {body : ReadChar → State → Except Failure (Bool × State)}
    (ofText : ∀ failure : Failure, failure.OfText → allowed failure)
    (keeps : ∀ stream next char state,
      Dwdiff.nextOfPiece options locale stream = .ok (.inl char, next) → invariant stream state →
      Meets allowed (fun result => invariant next result.2) (body char state))
    {fuel : Nat} (enough : stream.weight < fuel) {state : State} (holds : invariant stream state) :
    Meets allowed (fun result => Passed Keeps Finished stream result.2.1 ∧
        ∃ stream, invariant stream result.2.2)
      (Dwdiff.forPiece options locale body fuel stream state) := by
  induction fuel generalizing stream state with
  | zero => exact absurd enough (Nat.not_lt_zero _)
  | succ fuel inductionHypothesis =>
    unfold Dwdiff.forPiece
    have meets := @Lawful.nextOfPiece options locale _ _ _ _ lawful stream reading
    cases reads : Dwdiff.nextOfPiece options locale stream with
    | error failure =>
      rw [reads] at meets
      exact ofText failure meets
    | ok result =>
      obtain ⟨char | pieceEnd, next⟩ := result
      · obtain ⟨kept, less, -⟩ := meets.of_ok reads
        rw [if_neg nofun] at less
        dsimp only at kept less
        rw [ok_bind]
        refine (keeps stream next char state reads holds).bind ?_
        rintro ⟨stop, state'⟩ holds'
        cases stop with
        | true => exact ⟨⟨kept, Nat.le_of_lt less, Or.inl less⟩, next, holds'⟩
        | false =>
          refine (inductionHypothesis (lawful.again kept) (by omega) holds').mono ?_
          rintro last ⟨passed, holds''⟩
          have below := Nat.lt_of_le_of_lt passed.most less
          exact ⟨⟨lawful.trans kept passed.keeps, Nat.le_of_lt below, Or.inl below⟩, holds''⟩
      · obtain ⟨kept, less, finished⟩ := meets.of_ok reads
        refine ⟨⟨kept, Nat.le_trans (Nat.le_add_right _ _) less, ?_⟩, stream, holds⟩
        by_cases isEnd : pieceEnd = .endOfFile
        · exact Or.inr (finished (congrArg Sum.inr isEnd))
        · rw [if_neg (fun same => isEnd (Sum.inr.inj same))] at less
          exact Or.inl less

end Laws

/-! ### What a piece consists of -/

section Reads

/-- From the first stream on, the characters up to the end of the piece, and the stream behind
it. -/
inductive Reads (options : Options) (locale : Locale) :
    Stream → List ReadChar → PieceEnd → Stream → Prop where
  | done {stream final : Stream} {pieceEnd : PieceEnd}
      (ends : nextOfPiece options locale stream = .ok (.inr pieceEnd, final)) :
      Reads options locale stream [] pieceEnd final
  | more {stream next final : Stream} {char : ReadChar} {chars : List ReadChar}
      {pieceEnd : PieceEnd} (reads : nextOfPiece options locale stream = .ok (.inl char, next))
      (rest : Reads options locale next chars pieceEnd final) :
      Reads options locale stream (char :: chars) pieceEnd final

variable {final : Stream} {chars : List ReadChar} {pieceEnd : PieceEnd}

theorem readPiece_of_reads (reads : Reads options locale stream chars pieceEnd final) {fuel : Nat}
    (enough : chars.length < fuel) :
    readPiece options locale fuel stream = .ok (chars, pieceEnd, final) := by
  induction reads generalizing fuel with
  | done ends =>
    obtain ⟨fuel, rfl⟩ := exists_round enough
    rw [readPiece, ends]
    rfl
  | more reads rest inductionHypothesis =>
    obtain ⟨fuel, rfl⟩ := exists_round enough
    rw [readPiece, reads, ok_bind]
    dsimp only
    rw [inductionHypothesis (Nat.lt_of_succ_lt_succ enough), ok_bind]

theorem reads_of_readPiece {fuel : Nat}
    (answer : readPiece options locale fuel stream = .ok (chars, pieceEnd, final)) :
    Reads options locale stream chars pieceEnd final := by
  induction fuel generalizing stream chars with
  | zero => exact absurd answer (by simp [readPiece])
  | succ fuel inductionHypothesis =>
    rw [readPiece] at answer
    obtain ⟨⟨next, after⟩, reads, answer⟩ := bind_eq_ok.mp answer
    cases next with
    | inr ends =>
      cases answer
      exact .done reads
    | inl char =>
      obtain ⟨⟨tail, ends, last⟩, more, answer⟩ := bind_eq_ok.mp answer
      cases answer
      exact .more reads (inductionHypothesis more)

theorem nextOfPiece_takes {next : Stream} {item : ReadChar ⊕ PieceEnd}
    (reads : nextOfPiece options locale stream = .ok (item, next))
    (before : item ≠ .inr .endOfFile) : next.weight + 1 ≤ stream.weight := by
  have less := ((bytes_lawful.nextOfPiece trivial).of_ok reads).2.1
  rwa [if_neg before] at less

/-- A terminated piece takes something from the stream. -/
theorem Reads.takes (reads : Reads options locale stream chars .terminator final) :
    final.weight + 1 ≤ stream.weight := by
  generalize isEnd : PieceEnd.terminator = pieceEnd at reads
  induction reads with
  | done ends =>
    subst isEnd
    exact nextOfPiece_takes ends nofun
  | more reads rest inductionHypothesis =>
    have less := nextOfPiece_takes reads nofun
    have := inductionHypothesis isEnd
    omega

theorem Reads.length_lt (reads : Reads options locale stream chars pieceEnd final) :
    chars.length < stream.rounds := by
  have bounded : chars.length ≤ stream.weight := by
    induction reads with
    | done ends => exact Nat.zero_le _
    | more reads rest inductionHypothesis =>
      have less := nextOfPiece_takes reads nofun
      rw [List.length_cons]
      omega
  exact Nat.lt_of_le_of_lt bounded (weight_lt_rounds stream)

theorem readPiece_rounds (reads : Reads options locale stream chars pieceEnd final) :
    readPiece options locale stream.rounds stream = .ok (chars, pieceEnd, final) :=
  readPiece_of_reads reads reads.length_lt

/-- The loop over a piece. It goes to the end of the piece, or its body leaves it; then what is
left of the piece is still to be read. -/
theorem forPiece_meets {allowed : Failure → Prop} {invariant : State → Prop} {mayStop : Prop}
    {body : ReadChar → State → Except Failure (Bool × State)}
    (keeps : ∀ char state, invariant state →
      Meets allowed (fun result => invariant result.2 ∧ (result.1 = true → mayStop))
        (body char state))
    (reads : Reads options locale stream chars pieceEnd final) {fuel : Nat}
    (enough : chars.length < fuel) {state : State} (holds : invariant state) :
    Meets allowed (fun result => invariant result.2.2 ∧
        ((result.1 = pieceEnd ∧ result.2.1 = final) ∨
          (mayStop ∧ result.1 = .stopped ∧
            ∃ rest, Reads options locale result.2.1 rest pieceEnd final)))
      (forPiece options locale body fuel stream state) := by
  induction reads generalizing fuel state with
  | done ends =>
    obtain ⟨fuel, rfl⟩ := exists_round enough
    rw [forPiece, ends]
    exact ⟨holds, Or.inl ⟨rfl, rfl⟩⟩
  | more reads rest inductionHypothesis =>
    obtain ⟨fuel, rfl⟩ := exists_round enough
    rw [forPiece, reads, ok_bind]
    refine (keeps _ state holds).bind ?_
    rintro ⟨stop, state'⟩ ⟨holds', stops⟩
    cases stop with
    | true => exact ⟨holds', Or.inr ⟨stops rfl, rfl, _, rest⟩⟩
    | false => exact inductionHypothesis (Nat.lt_of_succ_lt_succ enough) holds'

/-- A loop that is never left is a fold over the characters of the piece. -/
theorem forPiece_always (body : ReadChar → State → Except Failure State)
    (reads : Reads options locale stream chars pieceEnd final) (state : State) :
    forPiece options locale (always body) stream.rounds stream state =
      chars.foldlM (fun state char => body char state) state >>= fun state =>
        .ok (pieceEnd, final, state) := by
  have enough := reads.length_lt
  generalize stream.rounds = fuel at enough ⊢
  induction reads generalizing fuel state with
  | done ends =>
    obtain ⟨fuel, rfl⟩ := exists_round enough
    rw [forPiece, ends]
    rfl
  | @more stream next final char chars pieceEnd reads rest inductionHypothesis =>
    obtain ⟨fuel, rfl⟩ := exists_round enough
    have round : always body char state = body char state >>= fun state => .ok (false, state) := rfl
    rw [forPiece, reads, ok_bind, List.foldlM_cons]
    dsimp only
    rw [round]
    cases body char state with
    | error failure => rfl
    | ok state' => exact inductionHypothesis state' fuel (Nat.lt_of_succ_lt_succ enough)

/-- The loop over a piece of any stream, with an invariant that does not look at the stream. -/
theorem forPiece_meets_any {allowed : Failure → Prop} {invariant : State → Prop}
    {body : ReadChar → State → Except Failure (Bool × State)}
    (ofText : ∀ failure : Failure, failure.OfText → allowed failure)
    (keeps : ∀ char state, invariant state →
      Meets allowed (fun result => invariant result.2) (body char state))
    {fuel : Nat} (enough : stream.weight < fuel) {state : State} (holds : invariant state) :
    Meets allowed (fun result => invariant result.2.2)
      (forPiece options locale body fuel stream state) := by
  refine (@Lawful.forPiece _ _ _ _ _ _ _ bytes_lawful stream trivial _
    (fun _ state => invariant state) body ofText
    (fun _ _ char state _ holds => keeps char state holds) fuel enough state holds).mono ?_
  rintro result ⟨-, -, kept⟩
  exact kept

end Reads

/-! ### Pieces in single-byte mode -/

/-- A piece as the single-byte functions write it. -/
def escaped (piece : List UInt8) : List UInt8 :=
  piece.flatMap escapeByte ++ [0]

section SingleByte

variable {rest : List UInt8} (singleByte : options.utf8Mode = false)

include singleByte

theorem readNextChar_cons {byte : UInt8} (starts : stream.remaining = byte :: rest) :
    readNextChar options locale stream =
      .ok (some (.single byte), stream.advance [byte] rest) := by
  rw [readNextChar, singleByte, vtable_getChar_cons stream byte rest starts]
  rfl

theorem readNextChar_end (ends : stream.remaining = []) :
    readNextChar options locale stream = .ok (none, stream.getChar.2) := by
  rw [readNextChar, vtable_getChar, Stream.getChar, singleByte, ends]
  cases stream.kind <;> rfl

theorem nextOfPiece_terminator (starts : stream.remaining = 0 :: rest) :
    nextOfPiece options locale stream = .ok (.inr .terminator, stream.advance [0] rest) := by
  unfold nextOfPiece
  rw [readNextChar_cons singleByte starts]
  rfl

theorem nextOfPiece_end (ends : stream.remaining = []) :
    nextOfPiece options locale stream = .ok (.inr .endOfFile, stream.getChar.2) := by
  rw [nextOfPiece, readNextChar_end singleByte ends]
  rfl

/-- A byte is read back as it was before it was escaped. -/
theorem nextOfPiece_escapeByte {byte : UInt8}
    (starts : stream.remaining = escapeByte byte ++ rest) :
    nextOfPiece options locale stream =
      .ok (.inl (.single byte), stream.advance (escapeByte byte) rest) := by
  unfold nextOfPiece
  by_cases special : byte = 0 ∨ byte = 1
  · rw [escapeByte, if_pos special] at starts ⊢
    have second := @readNextChar_cons options locale _ rest singleByte byte
      (advance_remaining stream [1] (byte :: rest))
    rw [readNextChar_cons singleByte starts]
    simp only [List.append_eq, List.singleton_append, ok_bind, second]
    rfl
  · rw [escapeByte, if_neg special] at starts ⊢
    rw [readNextChar_cons singleByte starts]
    obtain ⟨notZero, notOne⟩ := not_or.mp special
    have equalsZero : (ReadChar.single byte).equals 0 = false :=
      beq_eq_false_iff_ne.mpr fun same => notZero (UInt8.toNat_inj.mp same)
    have equalsOne : (ReadChar.single byte).equals 1 = false :=
      beq_eq_false_iff_ne.mpr fun same => notOne (UInt8.toNat_inj.mp same)
    simp [equalsZero, equalsOne]

/-- A piece is read back as it was before it was escaped. -/
theorem readPiece_escaped {piece : List UInt8} {fuel : Nat} (enough : piece.length < fuel)
    (starts : stream.remaining = escaped piece ++ rest) :
    readPiece options locale fuel stream =
      .ok (piece.map .single, .terminator, stream.advance (escaped piece) rest) := by
  induction piece generalizing stream fuel with
  | nil =>
    obtain ⟨fuel, rfl⟩ := exists_round enough
    rw [readPiece, nextOfPiece_terminator singleByte starts]
    rfl
  | cons byte piece inductionHypothesis =>
    obtain ⟨fuel, rfl⟩ := exists_round enough
    have unfolded : escaped (byte :: piece) = escapeByte byte ++ escaped piece := by
      simp [escaped]
    rw [unfolded, List.append_assoc] at starts
    have tail := inductionHypothesis (Nat.lt_of_succ_lt_succ enough)
      (advance_remaining stream (escapeByte byte) (escaped piece ++ rest))
    rw [readPiece, nextOfPiece_escapeByte singleByte starts, ok_bind]
    dsimp only
    rw [tail, ok_bind, advance_advance, unfolded, List.map_cons]

omit singleByte in
theorem length_le_escaped (piece : List UInt8) : piece.length < (escaped piece).length := by
  induction piece with
  | nil => exact Nat.zero_lt_one
  | cons byte piece inductionHypothesis =>
    have one : 1 ≤ (escapeByte byte).length := by
      unfold escapeByte
      split <;> simp
    have unfolded : escaped (byte :: piece) = escapeByte byte ++ escaped piece := by
      simp [escaped]
    rw [unfolded, List.length_append, List.length_cons]
    omega

/-- The pieces of a file are read back as they were before they were escaped. -/
theorem readPieces_escaped {pieces : List (List UInt8)} {fuel : Nat} (enough : pieces.length < fuel)
    (holds : stream.remaining = pieces.flatMap escaped) :
    readPieces options locale fuel stream = .ok (pieces.map (List.map .single)) := by
  induction pieces generalizing stream fuel with
  | nil =>
    obtain ⟨fuel, rfl⟩ := exists_round enough
    rw [readPieces, Stream.rounds, readPiece, nextOfPiece_end singleByte holds]
    rfl
  | cons piece pieces inductionHypothesis =>
    obtain ⟨fuel, rfl⟩ := exists_round enough
    rw [List.flatMap_cons] at holds
    have rounds : piece.length < stream.rounds := by
      have := length_le_escaped piece
      show piece.length < stream.remaining.length + 3
      rw [holds, List.length_append]
      omega
    have tail := inductionHypothesis (Nat.lt_of_succ_lt_succ enough)
      (advance_remaining stream (escaped piece) (pieces.flatMap escaped))
    rw [readPieces, readPiece_escaped singleByte rounds holds, ok_bind]
    dsimp only
    rw [tail, ok_bind, List.map_cons]

end SingleByte

end Dwdiff
