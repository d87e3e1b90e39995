import PatternAutomata.Automaton.Edit

/-!
# Histories of an automaton

An automaton is the outcome of the changes made to it, one after another, starting from nothing.
Changes are data here, so that a history can be replayed: `replay_append` states that a history can
be replayed in parts.
-/
namespace PatternAutomata

inductive Edit (ν : Type) where
  | addState
  | addTransition (source target : StateId) (c : Condition ν)
  | addTransitionOnce (source target : StateId) (c : Condition ν)
  | setAccepting (s : StateId)
  | setInitial (s : StateId)
  | deleteTransition (t : TransitionId)
  | deleteState (s : StateId)

namespace Graph

variable [DecidableEq ν]

/-- The automaton after a change, provided that the change succeeds. -/
def edit (g : Graph ν) : Edit ν → Except Error (Graph ν)
  | .addState => return g.addState.1
  | .addTransition source target c => return (← g.addTransition source target c).1
  | .addTransitionOnce source target c => return (← g.addTransitionOnce source target c).1
  | .setAccepting s => g.setAccepting s
  | .setInitial s => g.setInitial s
  | .deleteTransition t => g.deleteTransition t
  | .deleteState s => g.deleteState s

/-- The automaton after a history of changes. Those that fail change nothing. -/
def replay (g : Graph ν) : List (Edit ν) → Graph ν
  | [] => g
  | e :: es =>
    match g.edit e with
    | .ok g' => g'.replay es
    | .error _ => g.replay es

theorem replay_append (g : Graph ν) (es fs : List (Edit ν)) :
    g.replay (es ++ fs) = (g.replay es).replay fs := by
  induction es generalizing g with
  | nil => rfl
  | cons e es ih =>
    simp only [List.cons_append, replay]
    split
    · exact ih _
    · exact ih g

end Graph

end PatternAutomata
