/-
This file gives the rules for statements about computations that may fail: every
value returned satisfies a postcondition, and every failure is one of those that
are allowed; and about two such computations: both fail in the same way, or both
return, and the values are related. A run may also add to a relation between the
values it starts from and those it returns. The trace of a loop over a list is what
its steps say about the values they start from.
-/

import Mathlib.Data.Nat.Notation
import Mathlib.Order.Defs.Unbundled

namespace Outcome

variable {Error Value Result : Type} {value : Value} {outcome : Except Error Value}

/-- A returned value satisfies `post`, and a failure satisfies `allowed`. -/
def Meets (allowed : Error → Prop) (post : Value → Prop) : Except Error Value → Prop
  | .ok value => post value
  | .error error => allowed error

variable {allowed : Error → Prop} {post : Value → Prop} {last : Result → Prop}

theorem Meets.mono {weaker : Value → Prop} (meets : Meets allowed post outcome)
    (implies : ∀ value, post value → weaker value) : Meets allowed weaker outcome := by
  cases outcome with
  | ok value => exact implies value meets
  | error error => exact meets

/-- A sequence: what the first part guarantees is what the second part may assume. -/
theorem Meets.bind {first : Except Error Value} {next : Value → Except Error Result}
    (meets : Meets allowed post first) (continues : ∀ value, post value →
      Meets allowed last (next value)) : Meets allowed last (first >>= next) := by
  cases first with
  | ok value => exact continues value meets
  | error error => exact meets

theorem Meets.widen {wider : Error → Prop} (meets : Meets allowed post outcome)
    (implies : ∀ error, allowed error → wider error) : Meets wider post outcome := by
  cases outcome with
  | ok value => exact meets
  | error error => exact implies error meets

/-- Two postconditions of one computation. -/
theorem Meets.and {other : Value → Prop} (meets : Meets allowed post outcome)
    (meets' : Meets allowed other outcome) :
    Meets allowed (fun value => post value ∧ other value) outcome := by
  cases outcome with
  | ok value => exact ⟨meets, meets'⟩
  | error error => exact meets

/-- Any failure is allowed, so a computation of which nothing is known meets nothing. -/
theorem meets_any (outcome : Except Error Value) :
    Meets (fun _ => True) (fun _ => True) outcome := by
  cases outcome <;> trivial

/-- A loop over a list: each round leads from one invariant to the next. -/
theorem Meets.foldlM {Item : Type} {body : Value → Item → Except Error Value}
    (invariant : List Item → Value → Prop) (step : ∀ items item value, invariant items value →
      Meets allowed (invariant (items ++ [item])) (body value item)) (items : List Item)
    (holds : invariant [] value) : Meets allowed (invariant items) (items.foldlM body value) := by
  have from_ : ∀ (rest before : List Item) (value : Value), invariant before value →
      Meets allowed (invariant (before ++ rest)) (rest.foldlM body value) := by
    intro rest
    induction rest with
    | nil =>
      intro before value holds
      rw [List.append_nil]
      exact holds
    | cons item rest inductionHypothesis =>
      intro before value holds
      rw [List.foldlM_cons]
      refine (step before item value holds).bind fun value' holds' => ?_
      have meets := inductionHypothesis (before ++ [item]) value' holds'
      rwa [List.append_assoc, List.singleton_append] at meets
  exact from_ items [] value holds

/-- A loop that may have more rounds than it needs has a first one. -/
theorem exists_round {fuel needed : Nat} (enough : needed < fuel) : ∃ less, fuel = less + 1 :=
  Nat.exists_eq_succ_of_ne_zero (Nat.ne_zero_of_lt enough)

theorem exists_of_toBool (returns : outcome.toBool = true) : ∃ value, outcome = .ok value := by
  cases outcome with
  | ok value => exact ⟨value, rfl⟩
  | error error => exact absurd returns Bool.false_ne_true

/-- A value was returned and passes a check. -/
theorem exists_of_check {check : Value → Bool} (passes : outcome.toOption.any check = true) :
    ∃ value, outcome = .ok value ∧ check value = true := by
  cases outcome with
  | ok value => exact ⟨value, rfl, passes⟩
  | error error => exact absurd passes Bool.false_ne_true

/-- What was returned satisfies the postcondition. -/
theorem Meets.of_ok (meets : Meets allowed post outcome) (returns : outcome = .ok value) :
    post value := by
  rw [returns] at meets
  exact meets

/-! ### Relations that a run adds to -/

section Leads

variable {related : Value → Value → Prop}

/-- A value that the action returns is related to the one it was given. -/
def Leads (related : Value → Value → Prop) (action : Value → Except Error Value) : Prop :=
  ∀ value, Meets (fun _ => True) (related value) (action value)

variable [IsTrans Value related] {between : Value}

theorem Meets.after (isRelated : related value between)
    (meets : Meets allowed (related between) outcome) : Meets allowed (related value) outcome :=
  meets.mono fun _ isRelated' => IsTrans.trans _ _ _ isRelated isRelated'

theorem Meets.followed {first : Except Error Value} {next : Value → Except Error Value}
    (meets : Meets allowed (related value) first)
    (continues : ∀ between, Meets allowed (related between) (next between)) :
    Meets allowed (related value) (first >>= next) :=
  meets.bind fun between isRelated => (continues between).after isRelated

end Leads

/-! ### Two computations -/

section Agree

variable {Value' Result' : Type} {related : Value → Value' → Prop}
  {first : Except Error Value} {second : Except Error Value'}

/-- Both computations fail in the same way, or both return related values. -/
def Agree (related : Value → Value' → Prop) :
    Except Error Value → Except Error Value' → Prop
  | .ok value, .ok value' => related value value'
  | .error error, .error error' => error = error'
  | _, _ => False

theorem Agree.cases (agree : Agree related first second) :
    (∃ value value', first = .ok value ∧ second = .ok value' ∧ related value value') ∨
      ∃ error, first = .error error ∧ second = .error error := by
  cases first with
  | ok value =>
    cases second with
    | ok value' => exact Or.inl ⟨value, value', rfl, rfl, agree⟩
    | error error' => exact agree.elim
  | error error =>
    cases second with
    | ok value' => exact agree.elim
    | error error' => exact Or.inr ⟨error, rfl, congrArg Except.error (Eq.symm agree)⟩

theorem Agree.mono {weaker : Value → Value' → Prop} (agree : Agree related first second)
    (implies : ∀ value value', related value value' → weaker value value') :
    Agree weaker first second := by
  rcases agree.cases with ⟨value, value', rfl, rfl, isRelated⟩ | ⟨error, rfl, rfl⟩
  · exact implies value value' isRelated
  · exact rfl

/-- Two sequences whose parts agree. -/
theorem Agree.bind {last : Result → Result' → Prop} {next : Value → Except Error Result}
    {next' : Value' → Except Error Result'} (agree : Agree related first second)
    (continues : ∀ value value', related value value' → Agree last (next value) (next' value')) :
    Agree last (first >>= next) (second >>= next') := by
  rcases agree.cases with ⟨value, value', rfl, rfl, isRelated⟩ | ⟨error, rfl, rfl⟩
  · exact continues value value' isRelated
  · exact rfl

/-- A computation agrees with itself. -/
theorem Agree.of_eq {related : Value → Value → Prop} (self : ∀ value, related value value)
    (outcome : Except Error Value) : Agree related outcome outcome := by
  cases outcome with
  | ok value => exact self value
  | error error => exact rfl

theorem Agree.eq {second : Except Error Value} (agree : Agree Eq first second) :
    first = second := by
  rcases agree.cases with ⟨value, value', rfl, rfl, same⟩ | ⟨error, rfl, rfl⟩
  · exact congrArg Except.ok same
  · rfl

theorem Agree.exists_ok (agree : Agree related (.ok value) second) :
    ∃ value', second = .ok value' ∧ related value value' := by
  cases second with
  | ok value' => exact ⟨value', rfl, agree⟩
  | error error => exact agree.elim

/-- The second computation did return its value. -/
theorem Agree.and_ok (agree : Agree related first second) :
    Agree (fun value value' => related value value' ∧ second = .ok value') first second := by
  rcases agree.cases with ⟨value, value', rfl, rfl, isRelated⟩ | ⟨error, rfl, rfl⟩
  · exact ⟨isRelated, rfl⟩
  · exact rfl

/-- The action takes related states to outcomes that agree. -/
def Respects (related : Value → Value → Prop) (action : Value → Except Error Value) : Prop :=
  ∀ ⦃first second : Value⦄, related first second → Agree related (action first) (action second)

/-- Two loops over the same list. A step may use that the first loop has come to it. -/
theorem Agree.foldlM {Item : Type} {step : Value → Item → Except Error Value}
    {step' : Value' → Item → Except Error Value'} (items : List Item) {value' : Value'}
    (keeps : ∀ before item after, items = before ++ item :: after →
      ∀ between between', related between between' → before.foldlM step value = .ok between →
        Agree related (step between item) (step' between' item)) (starts : related value value') :
    Agree related (items.foldlM step value) (items.foldlM step' value') := by
  induction items generalizing value value' with
  | nil => exact starts
  | cons item items inductionHypothesis =>
    rw [List.foldlM_cons, List.foldlM_cons]
    rcases (keeps [] item items rfl _ _ starts rfl).cases with
      ⟨next, next', steps, steps', isRelated⟩ | ⟨error, fails, fails'⟩
    · rw [steps, steps']
      refine inductionHypothesis (fun before further after isItems between between' => ?_) isRelated
      refine fun isRelated' runs => keeps (item :: before) further after
        (congrArg (item :: ·) isItems) between between' isRelated' ?_
      rw [List.foldlM_cons, steps]
      exact runs
    · rw [fails, fails']
      exact rfl

end Agree

/-! ### Traces -/

section Trace

variable {Item Entry : Type} {step : Value → Item → Except Error Value}
  {tells : Value → Item → List Entry} {item : Item} {items : List Item} {final : Value}

/-- What the steps of a loop say, each about the value it starts from, up to a failure. -/
def trace (step : Value → Item → Except Error Value) (tells : Value → Item → List Entry) :
    Value → List Item → List Entry
  | _, [] => []
  | value, item :: items =>
    tells value item ++
      match step value item with
      | .ok next => trace step tells next items
      | .error _ => []

theorem trace_cons {next : Value} (returns : step value item = .ok next) (items : List Item) :
    trace step tells value (item :: items) = tells value item ++ trace step tells next items := by
  rw [trace, returns]

theorem foldlM_cons_ok (returns : (item :: items).foldlM step value = .ok final) :
    ∃ next, step value item = .ok next ∧ items.foldlM step next = .ok final := by
  rw [List.foldlM_cons] at returns
  cases isNext : step value item with
  | ok next =>
    rw [isNext] at returns
    exact ⟨next, rfl, returns⟩
  | error error =>
    rw [isNext] at returns
    contradiction

theorem trace_append {next : Value} (returns : items.foldlM step value = .ok next)
    (more : List Item) :
    trace step tells value (items ++ more) =
      trace step tells value items ++ trace step tells next more := by
  induction items generalizing value with
  | nil =>
    obtain rfl : value = next := Except.ok.inj returns
    rfl
  | cons item items inductionHypothesis =>
    obtain ⟨between, first, rest⟩ := foldlM_cons_ok returns
    rw [List.cons_append, trace_cons first, trace_cons first, inductionHypothesis rest,
      List.append_assoc]

/-- When every step adds to a view of the value what it says, so does the loop. -/
theorem trace_view {Shown : Type} {view : Value → List Shown} {shown : Entry → Shown}
    (adds : ∀ {value item next}, step value item = .ok next →
      view next = view value ++ (tells value item).map shown)
    (returns : items.foldlM step value = .ok final) :
    view final = view value ++ (trace step tells value items).map shown := by
  induction items generalizing value with
  | nil =>
    obtain rfl : value = final := Except.ok.inj returns
    exact (List.append_nil _).symm
  | cons item items inductionHypothesis =>
    obtain ⟨between, first, rest⟩ := foldlM_cons_ok returns
    rw [inductionHypothesis rest, adds first, trace_cons first, List.map_append,
      List.append_assoc]

/-- What is said is said by one of the steps. -/
theorem exists_of_mem_trace {entry : Entry} (returns : items.foldlM step value = .ok final)
    (isSaid : entry ∈ trace step tells value items) :
    ∃ item ∈ items, ∃ before after, step before item = .ok after ∧ entry ∈ tells before item := by
  induction items generalizing value with
  | nil => exact absurd isSaid List.not_mem_nil
  | cons item items inductionHypothesis =>
    obtain ⟨next, first, rest⟩ := foldlM_cons_ok returns
    rw [trace_cons first, List.mem_append] at isSaid
    rcases isSaid with isSaid | isSaid
    · exact ⟨item, List.mem_cons_self, value, next, first, isSaid⟩
    · obtain ⟨other, isIn, before, after, steps, isSaid⟩ := inductionHypothesis rest isSaid
      exact ⟨other, List.mem_cons_of_mem _ isIn, before, after, steps, isSaid⟩

/-- What a step says wherever it is made is said. -/
theorem mem_trace_of_mem {entry : Entry} (returns : items.foldlM step value = .ok final)
    (isIn : item ∈ items)
    (isSaid : ∀ {before after}, step before item = .ok after → entry ∈ tells before item) :
    entry ∈ trace step tells value items := by
  induction items generalizing value with
  | nil => exact absurd isIn List.not_mem_nil
  | cons other items inductionHypothesis =>
    obtain ⟨next, first, rest⟩ := foldlM_cons_ok returns
    rw [trace_cons first, List.mem_append]
    rcases List.mem_cons.mp isIn with rfl | isIn
    · exact Or.inl (isSaid first)
    · exact Or.inr (inductionHypothesis rest isIn)

end Trace

end Outcome
