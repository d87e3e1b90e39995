import PatternAutomata.Automaton.Graph

/-!
# Single steps of a search

A search sees a window, the list of the characters inside its span, and nothing else. A place in
the window is how many characters have been consumed together with those that are left. Whether a
nested automaton finds a match is a parameter here.
-/
namespace PatternAutomata

/-- Why a search fails. Places are counted in characters of the window. -/
inductive SearchError where
  | missingInitialState
  | sigmaTransition
  /-- Several transitions of a state apply at a place. -/
  | ambiguous (state pos : Nat)
  deriving DecidableEq

/-- The error as it is seen from a window that starts `n` characters earlier. -/
def SearchError.shift (n : Nat) : SearchError → SearchError
  | ambiguous state pos => ambiguous state (n + pos)
  | e => e

structure Place where
  pos : Nat
  rest : List Char

/-- How a nested automaton is run in a mode on a window: whether it finds a match. -/
abbrev Probe (ν : Type) := ν → Mode → List Char → Except SearchError Bool

namespace Condition

/-- The place that a condition leads to, if it holds. -/
def step (probe : Probe ν) (p : Place) : Condition ν → Except SearchError (Option Place)
  | char c =>
    match p.rest with
    | d :: rest => .ok (if d = c then some ⟨p.pos + 1, rest⟩ else none)
    | [] => .ok none
  | set s =>
    match p.rest with
    | d :: rest => .ok (if s.contains d then some ⟨p.pos + 1, rest⟩ else none)
    | [] => .ok none
  | sigma => .error .sigmaTransition
  | check nested mode negated =>
    match probe nested mode p.rest with
    | .ok found => .ok (if found != negated then some p else none)
    | .error e => .error (e.shift p.pos)

/-- A step stays at its place or consumes one character. -/
theorem place_of_step {probe : Probe ν} {p q : Place} {c : Condition ν}
    (h : c.step probe p = .ok (some q)) :
    q = p ∨ ∃ x, p.rest = x :: q.rest ∧ q.pos = p.pos + 1 := by
  cases c with
  | char d =>
    simp only [step] at h
    split at h
    · next x rest hr =>
      split at h
      · cases h
        exact .inr ⟨x, hr, rfl⟩
      · cases h
    · cases h
  | set s =>
    simp only [step] at h
    split at h
    · next x rest hr =>
      split at h
      · cases h
        exact .inr ⟨x, hr, rfl⟩
      · cases h
    · cases h
  | sigma => cases h
  | check nested mode negated =>
    simp only [step] at h
    split at h
    · split at h
      · cases h
        exact .inl rfl
      · cases h
    · cases h

end Condition

end PatternAutomata
