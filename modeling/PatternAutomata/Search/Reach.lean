import PatternAutomata.Search.Step

/-!
# What a search can reach

The states that an automaton can be in and the places it can be at, as a relation without any order
of search. `Reaches.rest_eq` states that a place is where it says to be in the window.
-/
namespace PatternAutomata.Graph

/-- The automaton, started on a window, can come to be in a state at a place. -/
inductive Reaches (g : Graph ν) (probe : Probe ν) (window : List Char) : Nat → Place → Prop where
  | start {s} (h : g.initial = some s) : Reaches g probe window s ⟨0, window⟩
  | silent {s p t} (h : Reaches g probe window s p) (leaves : t ∈ g.outgoing s)
      (sigma : t.condition.isSigma = true) : Reaches g probe window t.target p
  | step {s p t q} (h : Reaches g probe window s p) (leaves : t ∈ g.outgoing s)
      (holds : t.condition.step probe p = .ok (some q)) : Reaches g probe window t.target q

/-- The automaton can accept after it has consumed a number of characters. -/
def Accepts (g : Graph ν) (probe : Probe ν) (window : List Char) (pos : Nat) : Prop :=
  ∃ s p, g.Reaches probe window s p ∧ g.isAccepting s = true ∧ p.pos = pos

end PatternAutomata.Graph

namespace PatternAutomata

theorem Graph.Reaches.rest_eq {g : Graph ν} {probe : Probe ν} {window : List Char} {s : Nat}
    {p : Place} (h : g.Reaches probe window s p) :
    p.pos ≤ window.length ∧ p.rest = window.drop p.pos := by
  induction h with
  | start h => exact ⟨Nat.zero_le _, rfl⟩
  | silent h leaves sigma ih => exact ih
  | step h leaves holds ih =>
    rcases Condition.place_of_step holds with rfl | ⟨x, hx, hpos⟩
    · exact ih
    · have hlen := congrArg List.length (ih.2.symm.trans hx)
      rw [List.length_drop, List.length_cons] at hlen
      refine ⟨by omega, ?_⟩
      rw [hpos, ← List.tail_drop, ← ih.2, hx, List.tail_cons]

end PatternAutomata
