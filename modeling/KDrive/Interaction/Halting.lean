import Mathlib.Logic.Relation
import Mathlib.Tactic.Common

/-! Runs of a step relation that come to an end: a measure every step lowers rules
out endless runs, and an invariant of the steps holds wherever a run stops. -/
namespace Interaction
open Relation

variable {S : Type*} {step : S → S → Prop}

/-- No run from `s` goes on for ever. -/
def Halts (step : S → S → Prop) (s : S) : Prop :=
  ¬ ∃ states : Nat → S, states 0 = s ∧ ∀ n, step (states n) (states (n + 1))

/-- A run from `s` can stop in `t`, and nothing can move there. -/
def Ends (step : S → S → Prop) (s t : S) : Prop := ReflTransGen step s t ∧ ∀ u, ¬ step t u

theorem reaches_invariant (P : S → Prop) (preserves : ∀ {s t}, P s → step s t → P t)
    (run : ReflTransGen step s t) (initial : P s) : P t := by
  induction run with
  | refl => exact initial
  | tail _ last ih => exact preserves ih last

section Measure
variable (measure : S → Nat) (lowers : ∀ s t, step s t → measure t < measure s)
include lowers

theorem halts_of_measure (s : S) : Halts step s := by
  rintro ⟨states, -, steps⟩
  -- After as many steps as the measure allowed at the start nothing is left of it.
  have spent : ∀ n, measure (states n) + n ≤ measure (states 0) := by
    intro n
    induction n with
    | zero => omega
    | succ n ih =>
      have lower := lowers _ _ (steps n)
      omega
  have last := spent (measure (states 0) + 1)
  omega

theorem exists_ends (s : S) : ∃ t, Ends step s t := by
  induction bound : measure s using Nat.strongRecOn generalizing s with
  | ind n ih =>
    by_cases stuck : ∀ u, ¬ step s u
    · exact ⟨s, .refl, stuck⟩
    · obtain ⟨u, first⟩ := not_forall_not.mp stuck
      obtain ⟨t, rest, last⟩ := ih (measure u) (bound ▸ lowers _ _ first) u rfl
      exact ⟨t, .head first rest, last⟩

end Measure

end Interaction
