/-
This file models `loadProfile` of `profile.c`, which turns the lines of a
profile in `.dwdiffrc` into arguments. Lines are stripped in place, the options
of the wanted profile are gathered in a list that is built from its end, and the
list is reversed when the file has been read.

Lengths are unsigned in the source: one that would be negative wraps around, and
the copy that uses it runs out of its array. The model fails there, and where an
argument does not fit the memory allocated for it.
-/

import Dwdiff.Stream
import Mathlib.Data.List.TakeWhile

namespace Dwdiff

variable {state : ProfileState} {before : List (List UInt8)} {line : List UInt8}

/-! ### Lines -/

/-- `getline`, called until the end of the file: each line keeps its newline. -/
def getlines (content : List UInt8) : List (List UInt8) := linesOf content

/-- `strchr(SPACE, c) != NULL`, which also finds the terminator. -/
def isSpace (c : UInt8) : Bool :=
  [0x20, 0x09, 0x0B, 0x0C, 0x0A, 0x0D, 0].contains c

def stripSpaces (text : List UInt8) : List UInt8 :=
  ((text.dropWhile isSpace).reverse.dropWhile isSpace).reverse

/-- The difference of two lengths. -/
def lengthMinus (length count : Nat) : Except Failure Nat :=
  if count ≤ length then .ok (length - count) else .error .undefined

/-! ### Options -/

/-- The value of an option without its quotes. -/
def removeQuotes (value : List UInt8) : Except Failure (List UInt8) :=
  if 0 < value.length ∧ value.head? = value.getLast? ∧
      (value.head? = some 0x22 ∨ value.head? = some 0x27) then do
    let len ← lengthMinus value.length 2
    .ok ((value.drop 1).take len)
  else .ok value

/-- The argument for a line that is an option, in an array of `len + 3` bytes. -/
def profileArgument (first : List UInt8) : Except Failure (List UInt8) := do
  let word := first.takeWhile fun c => !isSpace c
  let arg := [0x2D, 0x2D] ++ word
  let arg ←
    if word.length ≠ first.length then do
      let len ← lengthMinus first.length word.length
      let value ← removeQuotes (stripSpaces ((first.drop word.length).take len))
      .ok (arg ++ [0x3D] ++ value)
    else .ok arg
  -- The terminator needs a byte as well.
  if arg.length + 1 ≤ first.length + 3 then .ok arg else .error .undefined

/-- The variables of `loadProfile`, and the lines it has warned about. -/
structure ProfileState where
  profileOptions : List (List UInt8)
  lineNumber : Nat
  saveProfile : Bool
  profileFound : Bool
  warnings : List Nat
  deriving DecidableEq, Repr

/-- One line of the file. -/
def loadLine (profile : List UInt8) (state : ProfileState) (line : List UInt8) :
    Except Failure ProfileState :=
  let state := { state with lineNumber := state.lineNumber + 1 }
  let first := stripSpaces (line.takeWhile (· != 0))
  if first.length = 0 then .ok state
  else if first.head? = some 0x23 then .ok state
  else if first.head? = some 0x5B ∧ first.getLast? = some 0x5D then do
    let len ← lengthMinus first.length 2
    let first := stripSpaces ((first.drop 1).take len)
    if first.length = 0 then
      .ok { state with saveProfile := false, warnings := state.warnings ++ [state.lineNumber] }
    else
      .ok { state with
        saveProfile := profile == first
        profileFound := state.profileFound || profile == first }
  else if !state.saveProfile then .ok state
  else do
    let arg ← profileArgument first
    .ok { state with profileOptions := arg :: state.profileOptions }

/-- The loop that reverses the option list. -/
def reverseOptions : (ptr prev : List (List UInt8)) → List (List UInt8)
  | [], prev => prev
  | option :: next, prev => reverseOptions next (option :: prev)

/-- The name of the profile that is loaded when none is given. -/
def defaultProfile : List UInt8 := [0x64, 0x65, 0x66, 0x61, 0x75, 0x6C, 0x74]

/-- `loadProfile`, on a file that could be opened: the arguments, and the lines that were warned
about. -/
def loadProfile (content profile : List UInt8) : Except Failure (List (List UInt8) × List Nat) := do
  let state ← (getlines content).foldlM (loadLine profile) ⟨[], 0, false, false, []⟩
  let profileOptions := reverseOptions state.profileOptions []
  if !state.profileFound && profile != defaultProfile then
    .error (.fatal ("Profile " ++ String.ofList (profile.map fun c => Char.ofNat c.toNat) ++
      " not found\n"))
  else .ok (profileOptions, state.warnings)

/-! ### What a profile is documented to be -/

/-- The name in a header: the text enclosed in brackets, stripped. -/
def headerName (text : List UInt8) : Option (List UInt8) :=
  if 2 ≤ text.length ∧ text.head? = some 0x5B ∧ text.getLast? = some 0x5D then
    some (stripSpaces (text.drop 1).dropLast)
  else none

/-- A line that is neither empty nor a comment nor a header. -/
def IsOption (text : List UInt8) : Prop :=
  text ≠ [] ∧ text.head? ≠ some 0x23 ∧ headerName text = none

instance (text : List UInt8) : Decidable (IsOption text) :=
  inferInstanceAs (Decidable (_ ∧ _ ∧ _))

/-- The profile that the lines before a line leave open: that of the last header. -/
def governing (lines : List (List UInt8)) : Option (List UInt8) :=
  lines.reverse.findSome? fun line => headerName (stripSpaces line)

/-- The option lines of a profile, stripped, in the order of the file. -/
def optionLines (profile : List UInt8) (before : List (List UInt8)) :
    (lines : List (List UInt8)) → List (List UInt8)
  | [] => []
  | line :: lines =>
    (if IsOption (stripSpaces line) ∧ governing before = some profile then [stripSpaces line]
      else []) ++ optionLines profile (before ++ [line]) lines

/-- The text behind the first word of an option line. -/
def optionValue (text : List UInt8) : List UInt8 :=
  stripSpaces (text.dropWhile fun c => !isSpace c)

/-- A value without the quotes at its two ends. -/
def unquoted (value : List UInt8) : List UInt8 :=
  if 2 ≤ value.length ∧ value.head? = value.getLast? ∧
      (value.head? = some 0x22 ∨ value.head? = some 0x27) then (value.drop 1).dropLast
  else value

/-- The argument that an option line stands for. -/
def documentedArgument (text : List UInt8) : List UInt8 :=
  [0x2D, 0x2D] ++ text.takeWhile (fun c => !isSpace c) ++
    if optionValue text = [] then [] else [0x3D] ++ unquoted (optionValue text)

/-- The arguments of a profile. -/
def documentedArguments (content profile : List UInt8) : List (List UInt8) :=
  (optionLines profile [] (getlines content)).map documentedArgument

/-! ### One argument -/

/-- An option line whose value is nothing but a quote. -/
def LoneQuote (text : List UInt8) : Prop :=
  optionValue text = [0x22] ∨ optionValue text = [0x27]

instance (text : List UInt8) : Decidable (LoneQuote text) :=
  inferInstanceAs (Decidable (_ ∨ _))

theorem removeQuotes_eq (value : List UInt8) :
    removeQuotes value =
      if value = [0x22] ∨ value = [0x27] then .error .undefined else .ok (unquoted value) := by
  rcases value with _ | ⟨first, _ | ⟨second, value⟩⟩
  · rfl
  · -- A single character is its own first and last one.
    by_cases quote : first = 0x22 ∨ first = 0x27
    · rcases quote with rfl | rfl <;> rfl
    · have plain : removeQuotes [first] = .ok [first] := if_neg (by simpa using quote)
      rw [plain, if_neg (by simpa using quote), unquoted, if_neg (by simp)]
  · rw [if_neg (by simp)]
    unfold removeQuotes unquoted
    by_cases quoted : (first :: second :: value).head? = (first :: second :: value).getLast? ∧
        ((first :: second :: value).head? = some 0x22 ∨
          (first :: second :: value).head? = some 0x27)
    · have long : 2 ≤ (first :: second :: value).length := by simp
      rw [if_pos ⟨by simp, quoted⟩, if_pos ⟨long, quoted⟩, lengthMinus, if_pos long, ok_bind,
        List.dropLast_eq_take]
      simp
    · rw [if_neg fun both => quoted both.2, if_neg fun both => quoted both.2]

theorem unquoted_length_le (value : List UInt8) : (unquoted value).length ≤ value.length := by
  unfold unquoted
  split
  · rw [List.length_dropLast, List.length_drop]
    omega
  · exact Nat.le_refl _

/-- A text that does not end in a space. -/
def EndsVisibly (text : List UInt8) : Prop := ∀ c, text.getLast? = some c → isSpace c = false

theorem stripSpaces_endsVisibly (text : List UInt8) : EndsVisibly (stripSpaces text) := by
  intro c isLast
  rw [stripSpaces, List.getLast?_reverse] at isLast
  have stops := List.head?_dropWhile_not isSpace (text.dropWhile isSpace).reverse
  rw [isLast] at stops
  simpa using stops

theorem stripSpaces_length_le (text : List UInt8) : (stripSpaces text).length ≤ text.length := by
  rw [stripSpaces, List.length_reverse]
  refine Nat.le_trans (List.dropWhile_sublist _).length_le ?_
  rw [List.length_reverse]
  exact (List.dropWhile_sublist _).length_le

theorem stripSpaces_cons {c : UInt8} (space : isSpace c = true) (text : List UInt8) :
    stripSpaces (c :: text) = stripSpaces text := by
  rw [stripSpaces, List.dropWhile_cons_of_pos space, stripSpaces]

theorem stripSpaces_eq_nil_iff (text : List UInt8) :
    stripSpaces text = [] ↔ ∀ c ∈ text, isSpace c = true := by
  rw [stripSpaces, List.reverse_eq_nil_iff, List.dropWhile_eq_nil_iff]
  have stops := List.head?_dropWhile_not isSpace text
  cases rests : text.dropWhile isSpace with
  | nil => exact iff_of_true (by simp) (List.dropWhile_eq_nil_iff.mp rests)
  | cons first rest =>
    rw [rests] at stops
    refine iff_of_false (fun spaces => ?_) fun spaces => ?_
    · have space := spaces first (by simp)
      rw [show isSpace first = false by simpa using stops] at space
      contradiction
    · rw [List.dropWhile_eq_nil_iff.mpr spaces] at rests
      contradiction

/-- The rest of a line starts with a space, which is not part of the value. -/
theorem optionValue_length {text : List UInt8}
    (more : text.dropWhile (fun c => !isSpace c) ≠ []) :
    (optionValue text).length < (text.dropWhile fun c => !isSpace c).length := by
  have stops := List.head?_dropWhile_not (fun c => !isSpace c) text
  obtain ⟨first, rest, isRest⟩ := List.exists_cons_of_ne_nil more
  rw [isRest] at stops
  have space : isSpace first = true := by simpa using stops
  rw [optionValue, isRest, stripSpaces_cons space, List.length_cons]
  exact Nat.lt_succ_of_le (stripSpaces_length_le rest)

theorem optionValue_eq_nil_iff {text : List UInt8} (visible : EndsVisibly text) :
    optionValue text = [] ↔ text.dropWhile (fun c => !isSpace c) = [] := by
  rw [optionValue, stripSpaces_eq_nil_iff]
  constructor
  · intro spaces
    by_contra more
    have last : text.getLast? = some ((text.dropWhile fun c => !isSpace c).getLast more) := by
      rw [← List.getLast?_eq_some_getLast]
      conv_lhs => rw [← List.takeWhile_append_dropWhile (p := fun c => !isSpace c) (l := text)]
      exact List.getLast?_append_of_ne_nil _ more
    have space := spaces _ (List.getLast_mem more)
    rw [visible _ last] at space
    contradiction
  · intro none
    rw [none]
    exact fun c isMember => absurd isMember List.not_mem_nil

/-- The argument of an option line: it is the documented one and fits its array, unless its value
is a lone quote. -/
theorem profileArgument_eq {text : List UInt8} (visible : EndsVisibly text) :
    profileArgument text =
      if LoneQuote text then .error .undefined else .ok (documentedArgument text) := by
  have split := @List.takeWhile_append_dropWhile UInt8 (fun c => !isSpace c) text
  have lengths := congrArg List.length split
  rw [List.length_append] at lengths
  have rests : (text.drop (text.takeWhile fun c => !isSpace c).length).take
      (text.length - (text.takeWhile fun c => !isSpace c).length) =
      text.dropWhile fun c => !isSpace c := by
    rw [← List.length_drop, List.take_length]
    exact (congrArg (List.drop _) split.symm).trans List.drop_left
  have none := optionValue_eq_nil_iff visible
  unfold profileArgument documentedArgument
  dsimp only
  by_cases more : text.dropWhile (fun c => !isSpace c) = []
  · rw [more, List.length_nil] at lengths
    have plain : ¬ LoneQuote text := by
      rw [LoneQuote, none.mpr more]
      decide
    rw [if_neg (by omega), if_neg plain, if_pos (none.mpr more), ok_bind, if_pos, List.append_nil]
    rw [List.length_append, List.length_cons, List.length_cons, List.length_nil]
    omega
  · have shorter := optionValue_length more
    have positive := List.length_pos_iff.mpr more
    rw [if_pos (by omega), if_neg (mt none.mp more), lengthMinus, if_pos (by omega), ok_bind, rests,
      ← optionValue, removeQuotes_eq]
    by_cases lone : optionValue text = [0x22] ∨ optionValue text = [0x27]
    · rw [if_pos lone, if_pos (show LoneQuote text from lone)]
      rfl
    · have shorter' := unquoted_length_le (optionValue text)
      rw [if_neg lone, if_neg (show ¬ LoneQuote text from lone), ok_bind, ok_bind, if_pos,
        List.append_assoc]
      simp only [List.length_append, List.length_cons, List.length_nil]
      omega

/-! ### One line after another -/

section Loading

variable {profile : List UInt8}

theorem governing_append (before : List (List UInt8)) (line : List UInt8) :
    governing (before ++ [line]) = (headerName (stripSpaces line)).or (governing before) := by
  rw [governing, List.reverse_append, List.reverse_singleton, List.singleton_append,
    List.findSome?_cons]
  cases headerName (stripSpaces line) <;> rfl

theorem optionLines_append (before first second : List (List UInt8)) :
    optionLines profile before (first ++ second) =
      optionLines profile before first ++ optionLines profile (before ++ first) second := by
  induction first generalizing before with
  | nil => rw [List.nil_append, List.append_nil, optionLines, List.nil_append]
  | cons line first inductionHypothesis =>
    rw [List.cons_append, optionLines, optionLines, inductionHypothesis, List.append_assoc,
      List.append_assoc]
    rfl

/-- The variables of the loop, told by the lines that were read. -/
structure Loaded (profile : List UInt8) (before : List (List UInt8)) (state : ProfileState) :
    Prop where
  saveProfile : state.saveProfile = true ↔ governing before = some profile
  profileFound : state.profileFound = true ↔
    ∃ line ∈ before, headerName (stripSpaces line) = some profile
  profileOptions : state.profileOptions.reverse =
    (optionLines profile [] before).map documentedArgument

/-- A line that is no header and no option of the profile changes nothing. -/
theorem Loaded.skip (loaded : Loaded profile before state)
    (noHeader : headerName (stripSpaces line) = none)
    (noOption : ¬ (IsOption (stripSpaces line) ∧ governing before = some profile)) :
    Loaded profile (before ++ [line]) { state with lineNumber := state.lineNumber + 1 } where
  saveProfile := by
    rw [governing_append, noHeader, Option.none_or]
    exact loaded.saveProfile
  profileFound := by
    rw [show ({ state with lineNumber := state.lineNumber + 1 } : ProfileState).profileFound =
      state.profileFound from rfl, loaded.profileFound]
    simp [noHeader]
  profileOptions := by
    rw [optionLines_append, List.nil_append, optionLines, if_neg noOption]
    simpa [optionLines] using loaded.profileOptions

/-- A header opens the profile it names. -/
theorem Loaded.header {before : List (List UInt8)} {line name : List UInt8} {state : ProfileState}
    (loaded : Loaded profile before state) (isHeader : headerName (stripSpaces line) = some name)
    (lineNumber : Nat) (warnings : List Nat) :
    Loaded profile (before ++ [line])
      ⟨state.profileOptions, lineNumber, profile == name, state.profileFound || profile == name,
        warnings⟩ where
  saveProfile := by
    rw [governing_append, isHeader, Option.some_or, Option.some_inj, beq_iff_eq]
    exact eq_comm
  profileFound := by
    simp only [Bool.or_eq_true, beq_iff_eq, loaded.profileFound, List.mem_append,
      List.mem_singleton, or_and_right, exists_or, exists_eq_left, isHeader, Option.some_inj]
    exact or_congr_right eq_comm
  profileOptions := by
    have noOption : ¬ (IsOption (stripSpaces line) ∧ governing before = some profile) := by
      rintro ⟨⟨-, -, noHeader⟩, -⟩
      rw [isHeader] at noHeader
      contradiction
    rw [optionLines_append, List.nil_append, optionLines, if_neg noOption]
    simpa [optionLines] using loaded.profileOptions

theorem headerName_eq {text : List UInt8} (opens : text.head? = some 0x5B)
    (closes : text.getLast? = some 0x5D) :
    2 ≤ text.length ∧
      headerName text = some (stripSpaces ((text.drop 1).take (text.length - 2))) := by
  have long : 2 ≤ text.length := by
    rcases text with _ | ⟨first, _ | ⟨second, text⟩⟩
    · contradiction
    · rw [List.head?_cons] at opens
      rw [List.getLast?_singleton, opens] at closes
      exact absurd closes (by decide)
    · simp
  refine ⟨long, ?_⟩
  rw [headerName, if_pos ⟨long, opens, closes⟩, List.dropLast_eq_take, List.length_drop]
  rfl

/-- One line, for a profile with a name. -/
theorem loadLine_eq (named : profile ≠ []) (noNul : 0 ∉ line)
    (loaded : Loaded profile before state) :
    (∃ next, loadLine profile state line = .ok next ∧ Loaded profile (before ++ [line]) next ∧
      ∀ text ∈ optionLines profile before [line], ¬ LoneQuote text) ∨
    (loadLine profile state line = .error .undefined ∧
      ∃ text ∈ optionLines profile before [line], LoneQuote text) := by
  have whole : line.takeWhile (· != 0) = line := by
    refine List.takeWhile_eq_self_iff.mpr fun c isMember => bne_iff_ne.mpr ?_
    rintro rfl
    exact noNul isMember
  unfold loadLine
  dsimp only
  rw [whole]
  have alone : optionLines profile before [line] =
      if IsOption (stripSpaces line) ∧ governing before = some profile then [stripSpaces line]
      else [] := List.append_nil _
  have visible := stripSpaces_endsVisibly line
  rw [alone]
  generalize isText : stripSpaces line = text at visible ⊢
  have skips (noHeader : headerName text = none)
      (noOption : ¬ (IsOption text ∧ governing before = some profile)) :
      Loaded profile (before ++ [line]) { state with lineNumber := state.lineNumber + 1 } ∧
        ∀ other ∈ (if IsOption text ∧ governing before = some profile then [text] else []),
          ¬ LoneQuote other := by
    subst isText
    refine ⟨loaded.skip noHeader noOption, ?_⟩
    rw [if_neg noOption]
    exact fun other isMember => absurd isMember List.not_mem_nil
  have headers {name : List UInt8} (isHeader : headerName text = some name) :
      ∀ other ∈ (if IsOption text ∧ governing before = some profile then [text] else []),
        ¬ LoneQuote other := by
    rw [if_neg fun both => by simp [IsOption, isHeader] at both]
    exact fun other isMember => absurd isMember List.not_mem_nil
  by_cases empty : text.length = 0
  · have isEmpty := List.length_eq_zero_iff.mp empty
    rw [if_pos empty]
    obtain ⟨loaded', none⟩ := skips (by rw [isEmpty]; rfl) fun both => both.1.1 isEmpty
    exact Or.inl ⟨_, rfl, loaded', none⟩
  rw [if_neg empty]
  by_cases comment : text.head? = some 0x23
  · rw [if_pos comment]
    obtain ⟨loaded', none⟩ := skips
      (if_neg fun brackets => absurd (comment.symm.trans brackets.2.1) (by decide))
      fun both => both.1.2.1 comment
    exact Or.inl ⟨_, rfl, loaded', none⟩
  rw [if_neg comment]
  by_cases brackets : text.head? = some 0x5B ∧ text.getLast? = some 0x5D
  · obtain ⟨long, isHeader⟩ := headerName_eq brackets.1 brackets.2
    rw [if_pos brackets, lengthMinus, if_pos long, ok_bind]
    generalize stripSpaces ((text.drop 1).take (text.length - 2)) = name at isHeader ⊢
    have opened := fun lineNumber warnings => @Loaded.header profile before line name state loaded
      (by rw [isText, isHeader]) lineNumber warnings
    left
    by_cases unnamed : name.length = 0
    · rw [if_pos unnamed]
      have other : (profile == name) = false := by
        rw [List.length_eq_zero_iff.mp unnamed]
        exact beq_eq_false_iff_ne.mpr named
      simp only [other, Bool.or_false] at opened
      exact ⟨_, rfl, opened _ _, headers isHeader⟩
    · rw [if_neg unnamed]
      exact ⟨_, rfl, opened _ _, headers isHeader⟩
  rw [if_neg brackets]
  have noHeader : headerName text = none := if_neg fun both => brackets both.2
  by_cases save : governing before = some profile
  · have saving : state.saveProfile = true := loaded.saveProfile.mpr save
    have isOption : IsOption text :=
      ⟨fun isEmpty => empty (by rw [isEmpty]; rfl), comment, noHeader⟩
    rw [if_neg (by rw [saving]; decide), if_pos ⟨isOption, save⟩, profileArgument_eq visible]
    by_cases lone : LoneQuote text
    · rw [if_pos lone]
      exact Or.inr ⟨rfl, text, List.mem_singleton_self text, lone⟩
    · rw [if_neg lone, ok_bind]
      refine Or.inl ⟨_, rfl, ⟨?_, ?_, ?_⟩, ?_⟩
      · rw [governing_append, isText, noHeader, Option.none_or]
        exact loaded.saveProfile
      · simp only [loaded.profileFound, List.mem_append, List.mem_singleton, or_and_right,
          exists_or, exists_eq_left, isText, noHeader, reduceCtorEq, or_false]
      · rw [optionLines_append, List.nil_append, alone, isText, if_pos ⟨isOption, save⟩,
          List.map_append, ← loaded.profileOptions, List.reverse_cons]
        rfl
      · exact fun other isMember => List.mem_singleton.mp isMember ▸ lone
  · have notSaving : state.saveProfile = false := by
      rw [← Bool.not_eq_true]
      exact mt loaded.saveProfile.mp save
    rw [if_pos (by rw [notSaving]; decide)]
    obtain ⟨loaded', none⟩ := skips noHeader fun both => save both.2
    exact Or.inl ⟨_, rfl, loaded', none⟩

/-- All the lines of a file: they leave the documented arguments, or a lone quote is met. -/
theorem loadLines_eq (named : profile ≠ []) {lines : List (List UInt8)}
    (noNul : ∀ line ∈ lines, 0 ∉ line) (loaded : Loaded profile before state) :
    (∃ final, lines.foldlM (loadLine profile) state = .ok final ∧
      Loaded profile (before ++ lines) final ∧
      ∀ text ∈ optionLines profile before lines, ¬ LoneQuote text) ∨
    (lines.foldlM (loadLine profile) state = .error .undefined ∧
      ∃ text ∈ optionLines profile before lines, LoneQuote text) := by
  induction lines generalizing before state with
  | nil =>
    refine Or.inl ⟨state, rfl, by rwa [List.append_nil], ?_⟩
    exact fun text isMember => absurd isMember List.not_mem_nil
  | cons line lines inductionHypothesis =>
    obtain ⟨first, others⟩ := List.forall_mem_cons.mp noNul
    have parts := @optionLines_append profile before [line] lines
    rw [List.singleton_append] at parts
    rw [List.foldlM_cons, parts]
    rcases loadLine_eq named first loaded with
      ⟨next, reads, loaded', plain⟩ | ⟨fails, text, isMember, lone⟩
    · rw [reads, ok_bind]
      rcases inductionHypothesis others loaded' with
        ⟨final, loads, loaded'', plain'⟩ | ⟨fails, text, isMember, lone⟩
      · rw [List.append_assoc] at loaded''
        refine Or.inl ⟨final, loads, loaded'', fun text isMember => ?_⟩
        exact (List.mem_append.mp isMember).elim (plain text) (plain' text)
      · exact Or.inr ⟨fails, text, List.mem_append_right _ isMember, lone⟩
    · rw [fails]
      exact Or.inr ⟨rfl, text, List.mem_append_left _ isMember, lone⟩

/-- A profile without a name is never open. -/
def Unfound (state : ProfileState) : Prop :=
  state.saveProfile = false ∧ state.profileFound = false

theorem loadLine_unnamed {next : ProfileState} (unfound : Unfound state)
    (reads : loadLine [] state line = .ok next) : Unfound next := by
  obtain ⟨closed, missing⟩ := unfound
  unfold loadLine at reads
  dsimp only at reads
  generalize stripSpaces (line.takeWhile (· != 0)) = text at reads
  by_cases empty : text.length = 0
  · rw [if_pos empty] at reads
    exact Except.ok.inj reads ▸ ⟨closed, missing⟩
  by_cases comment : text.head? = some 0x23
  · rw [if_neg empty, if_pos comment] at reads
    exact Except.ok.inj reads ▸ ⟨closed, missing⟩
  rw [if_neg empty, if_neg comment] at reads
  by_cases brackets : text.head? = some 0x5B ∧ text.getLast? = some 0x5D
  · rw [if_pos brackets] at reads
    obtain ⟨length, -, reads⟩ := bind_eq_ok.mp reads
    generalize stripSpaces ((text.drop 1).take length) = name at reads
    cases name with
    | nil => exact Except.ok.inj reads ▸ ⟨rfl, missing⟩
    | cons first name =>
      refine Except.ok.inj reads ▸ ⟨rfl, ?_⟩
      rw [missing]
      rfl
  · rw [if_neg brackets, closed] at reads
    exact Except.ok.inj reads ▸ ⟨rfl, missing⟩

theorem loadLines_unnamed {lines : List (List UInt8)} {final : ProfileState}
    (unfound : Unfound state) (loads : lines.foldlM (loadLine []) state = .ok final) :
    Unfound final := by
  induction lines generalizing state with
  | nil => exact Except.ok.inj loads ▸ unfound
  | cons line lines inductionHypothesis =>
    rw [List.foldlM_cons] at loads
    obtain ⟨next, reads, loads⟩ := bind_eq_ok.mp loads
    exact inductionHypothesis (loadLine_unnamed unfound reads) loads

end Loading

/-! ### The whole file -/

theorem reverseOptions_eq (options others : List (List UInt8)) :
    reverseOptions options others = options.reverse ++ others := by
  induction options generalizing others with
  | nil => rfl
  | cons option options inductionHypothesis =>
    rw [reverseOptions, inductionHypothesis, List.reverse_cons, List.append_assoc]
    rfl

/-- Whether a file has a header for the profile. -/
def HasProfile (content profile : List UInt8) : Prop :=
  ∃ line ∈ getlines content, headerName (stripSpaces line) = some profile

/-- `loadProfile` returns the documented arguments exactly if the profile has a name and a header,
or is the default one, and no option of it has a lone quote for its value. -/
theorem loadProfile_documented_iff {content : List UInt8} (noNul : 0 ∉ content)
    (profile : List UInt8) :
    (∃ warnings, loadProfile content profile =
        .ok (documentedArguments content profile, warnings)) ↔
      (profile = defaultProfile ∨ profile ≠ [] ∧ HasProfile content profile) ∧
        ∀ text ∈ optionLines profile [] (getlines content), ¬ LoneQuote text := by
  unfold loadProfile
  by_cases named : profile = []
  · subst named
    refine iff_of_false ?_ fun both => both.1.elim (by decide) fun found => found.1 rfl
    rintro ⟨warnings, loads⟩
    obtain ⟨final, reads, loads⟩ := bind_eq_ok.mp loads
    have missing := (loadLines_unnamed ⟨rfl, rfl⟩ reads).2
    rw [missing] at loads
    contradiction
  have noNuls : ∀ line ∈ getlines content, 0 ∉ line := by
    intro line isLine isMember
    refine noNul ?_
    rw [← linesOf_flatten content]
    exact List.mem_flatten.mpr ⟨line, isLine, isMember⟩
  have start : Loaded profile [] ⟨[], 0, false, false, []⟩ :=
    ⟨by simp [governing], by simp, rfl⟩
  rcases loadLines_eq named noNuls start with ⟨final, reads, loaded, plain⟩ | ⟨fails, lone⟩
  · rw [reads, ok_bind, reverseOptions_eq, List.append_nil, loaded.profileOptions]
    by_cases found : profile = defaultProfile ∨ HasProfile content profile
    · refine iff_of_true ⟨final.warnings, if_neg ?_⟩
        ⟨found.imp_right fun has => ⟨named, has⟩, plain⟩
      rcases found with isDefault | has
      · simp [isDefault]
      · simp [loaded.profileFound.mpr has]
    · obtain ⟨other, missing⟩ := not_or.mp found
      have unfound : final.profileFound = false := by
        rw [← Bool.not_eq_true]
        exact mt loaded.profileFound.mp missing
      refine iff_of_false ?_ fun both => found (both.1.imp_right And.right)
      rw [if_pos (by simp [unfound, other])]
      exact fun ⟨warnings, loads⟩ => absurd loads (by simp)
  · obtain ⟨text, isMember, isLone⟩ := lone
    rw [fails]
    refine iff_of_false ?_ fun both => both.2 text isMember isLone
    exact fun ⟨warnings, loads⟩ => absurd loads (by simp [bind, Except.bind])

/-- The lines `[d]`, `a` and `s '['`. -/
theorem loadProfile_documented_brackets :
    ∃ warnings, loadProfile
      [0x5B, 0x64, 0x5D, 0x0A, 0x61, 0x0A, 0x73, 0x20, 0x27, 0x5B, 0x27, 0x0A] [0x64] =
        .ok (documentedArguments
          [0x5B, 0x64, 0x5D, 0x0A, 0x61, 0x0A, 0x73, 0x20, 0x27, 0x5B, 0x27, 0x0A] [0x64],
          warnings) :=
  (loadProfile_documented_iff (by decide) [0x64]).mpr
    ⟨Or.inr ⟨by decide, [0x5B, 0x64, 0x5D, 0x0A], by decide, by decide⟩, by decide⟩

/-- A value that is one quote, as in the line `s "`, makes the length of the copy wrap around. -/
theorem loadProfile_lone_quote :
    documentedArguments [0x5B, 0x64, 0x5D, 0x0A, 0x73, 0x20, 0x22, 0x0A] [0x64] =
        [[0x2D, 0x2D, 0x73, 0x3D, 0x22]] ∧
      loadProfile [0x5B, 0x64, 0x5D, 0x0A, 0x73, 0x20, 0x22, 0x0A] [0x64] = .error .undefined := by
  decide

end Dwdiff
