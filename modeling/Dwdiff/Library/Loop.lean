/-
This file gives the loops of an imperative program as functions: a loop that
runs until its body leaves it, and a loop that counts up. A body answers `none`
when it does something that has no defined meaning. The rules prove that a loop
answers at all, together with what its answer satisfies: an invariant, and for
the first loop a measure that every further round decreases.
-/

import Mathlib.Data.Nat.Notation

namespace Loop

variable {State Result : Type}

/-- Runs the body until it leaves with a result, for at most `fuel` rounds. -/
def run (body : State → Option (State ⊕ Result)) : (fuel : Nat) → State → Option Result
  | 0, _ => none
  | fuel + 1, state =>
    match body state with
    | none => none
    | some (.inl next) => run body fuel next
    | some (.inr result) => some result

/-- One round of a loop: it goes on with the invariant kept and the measure smaller, or it
leaves with a result. -/
def Advances (body : State → Option (State ⊕ Result)) (invariant : State → Prop)
    (size : State → Nat) (post : Result → Prop) (state : State) : Prop :=
  (∃ next, body state = some (.inl next) ∧ invariant next ∧ size next < size state) ∨
    ∃ result, body state = some (.inr result) ∧ post result

/-- Total correctness: from a state with the invariant, and with more fuel than the measure
says, the loop leaves with a result that meets the postcondition. -/
theorem run_total {body : State → Option (State ⊕ Result)} (invariant : State → Prop)
    (size : State → Nat) (post : Result → Prop)
    (advances : ∀ state, invariant state → Advances body invariant size post state) :
    ∀ (fuel : Nat) (state : State), invariant state → size state < fuel →
      ∃ result, run body fuel state = some result ∧ post result
  | 0, _, _, enough => absurd enough (Nat.not_lt_zero _)
  | fuel + 1, state, holds, enough => by
    rcases advances state holds with ⟨next, steps, kept, smaller⟩ | ⟨result, leaves, met⟩
    · obtain ⟨result, answer, met⟩ :=
        run_total invariant size post advances fuel next kept (by omega)
      exact ⟨result, by rw [run, steps]; exact answer, met⟩
    · exact ⟨result, by rw [run, leaves], met⟩

/-- Runs the body for the indices `index`, `index + 1`, ..., `count` of them. -/
def upTo (body : Nat → State → Option State) : (count index : Nat) → State → Option State
  | 0, _, state => some state
  | count + 1, index, state => (body index state).bind (upTo body count (index + 1))

/-- Total correctness of a counting loop, with an invariant that may name the index. -/
theorem upTo_total {body : Nat → State → Option State} (invariant : Nat → State → Prop) :
    ∀ (count index : Nat) (state : State),
      (∀ current state, index ≤ current → current < index + count → invariant current state →
        ∃ next, body current state = some next ∧ invariant (current + 1) next) →
      invariant index state →
      ∃ final, upTo body count index state = some final ∧ invariant (index + count) final
  | 0, _, state, _, holds => ⟨state, rfl, holds⟩
  | count + 1, index, state, step, holds => by
    obtain ⟨next, steps, kept⟩ := step index state (Nat.le_refl _) (by omega) holds
    obtain ⟨final, answer, met⟩ := upTo_total invariant count (index + 1) next
      (fun current state above below => step current state (by omega) (by omega)) kept
    refine ⟨final, by rw [upTo, steps]; exact answer, ?_⟩
    rw [show index + (count + 1) = index + 1 + count by omega]
    exact met

end Loop
