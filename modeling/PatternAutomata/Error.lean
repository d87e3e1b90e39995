/-!
# Errors

The ways in which building, changing and searching automata can fail, apart from patterns that
cannot be read.
-/
namespace PatternAutomata

inductive Error where
  | foreignState (state : Nat)
  | foreignTransition (transition : Nat)
  | deletedState (state : Nat)
  | initialStateDeletion (state : Nat)
  | stateAlreadyDeleted (state : Nat)
  | transitionAlreadyDeleted (transition : Nat)
  | missingInitialState
  | invalidBounds (min : Nat) (max : Option Nat)
  | emptySequence
  | emptyAlternatives
  | sigmaTransition
  /-- Several transitions apply in a state at a byte offset. -/
  | ambiguous (state offset : Nat)
  deriving DecidableEq

namespace Error

def stateName (state : Nat) : String := "$" ++ toString state

def transitionName (transition : Nat) : String := "T" ++ toString transition

def message : Error → String
  | foreignState s => "state " ++ stateName s ++ " belongs to another automaton"
  | foreignTransition t => "transition " ++ transitionName t ++ " belongs to another automaton"
  | deletedState s => "state " ++ stateName s ++ " is deleted"
  | initialStateDeletion s =>
    "state " ++ stateName s ++ " is the initial state and cannot be deleted"
  | stateAlreadyDeleted s => "state " ++ stateName s ++ " is already deleted"
  | transitionAlreadyDeleted t => "transition " ++ transitionName t ++ " is already deleted"
  | missingInitialState => "automaton has no initial state"
  | invalidBounds min max =>
    "invalid repeat bound \x7b" ++ toString min ++ "," ++ (max.map toString).getD "" ++ "\x7d"
  | emptySequence => "sequence must hold at least one item"
  | emptyAlternatives => "alternatives must hold at least one item"
  | sigmaTransition => "sigma transitions cannot be matched, eliminate them first"
  | ambiguous s offset =>
    "automaton is not deterministic: state " ++ stateName s ++
      " has several viable transitions at " ++ toString offset

end Error

theorem bind_eq_ok {ε α β : Type} {x : Except ε α} {f : α → Except ε β} {b : β} :
    (x >>= f) = .ok b ↔ ∃ a, x = .ok a ∧ f a = .ok b := by
  cases x <;> simp [bind, Except.bind]

end PatternAutomata
