import Mathlib.Data.List.Chain

/-!
# Loops

A loop takes a step as long as there is one to take. `Loops step s trail t` is a whole run of the
loop from `s` to `t`, with the states in which it takes a step. A loop whose steps keep an
invariant and lower a measure has such a run (`exists_loops`); what every step does to two
successive states holds along it (`Loops.isChain`).
-/
namespace PatternAutomata

inductive Loops {σ : Type} (step : σ → Option σ) : σ → List σ → σ → Prop
  | stop {s : σ} (last : step s = none) : Loops step s [] s
  | next {s s' t : σ} {trail : List σ} (first : step s = some s') (rest : Loops step s' trail t) :
    Loops step s (s :: trail) t

variable {σ : Type} {step : σ → Option σ} {s t : σ} {trail : List σ}

/-- A loop ends after at most as many steps as the measure allows at its start. -/
theorem exists_loops {Keeps : σ → Prop} (measure : σ → Nat)
    (steps : ∀ s s', Keeps s → step s = some s' → Keeps s' ∧ measure s' < measure s)
    (s : σ) (hs : Keeps s) :
    ∃ trail t, Loops step s trail t ∧ trail.length ≤ measure s ∧ Keeps t := by
  -- Induction on the measure, as the states themselves may grow from step to step.
  generalize bound : measure s = n
  induction n using Nat.strongRecOn generalizing s with
  | _ n ih =>
    cases first : step s with
    | none => exact ⟨[], s, .stop first, Nat.zero_le n, hs⟩
    | some s' =>
      have ⟨keeps, lower⟩ := steps s s' hs first
      have ⟨trail, t, rest, short, last⟩ := ih (measure s') (bound ▸ lower) s' keeps rfl
      exact ⟨s :: trail, t, .next first rest, by rw [List.length_cons]; omega, last⟩

namespace Loops

theorem step_eq_none (h : Loops step s trail t) : step t = none := by
  induction h with
  | stop last => exact last
  | next _ _ ih => exact ih

/-- What every step does to two successive states, given what is kept. -/
theorem isChain {Keeps : σ → Prop} {R : σ → σ → Prop}
    (steps : ∀ s s', Keeps s → step s = some s' → Keeps s' ∧ R s s')
    (h : Loops step s trail t) (hs : Keeps s) : (trail ++ [t]).IsChain R := by
  induction h with
  | stop => exact .singleton _
  | @next s s' t trail first rest ih =>
    have ⟨keeps, related⟩ := steps s s' hs first
    have tail := ih keeps
    cases rest with
    | stop => exact .cons_cons related tail
    | next => exact .cons_cons related tail

end Loops

end PatternAutomata
