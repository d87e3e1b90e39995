import PatternAutomata.Automaton.Graph
import PatternAutomata.Automaton.Marks

/-!
# Sigma closure

The states that sigma transitions lead to from a given state, in the order of a depth-first search
that takes the transitions of a state in the order of their creation. `Closures.lookup_eq` states
that looking a closure up gives the same as working it out.
-/
namespace PatternAutomata.Graph

def sigmaTargets (g : Graph ν) (s : Nat) : List Nat :=
  (g.outgoing s).filterMap fun t => if t.condition.isSigma then some t.target else none

/-- Visits the pending states, the first one first, and all that follow from them. -/
def closureFrom (g : Graph ν) (seen : Marks g.states.size) : List Nat → List Nat
  | [] => []
  | s :: pending =>
    match _h : seen.mark? s with
    | none => g.closureFrom seen pending
    | some seen' => s :: g.closureFrom seen' (g.sigmaTargets s ++ pending)
termination_by pending => (seen.free, pending.length)
decreasing_by
  · exact Prod.Lex.right _ (by simp)
  · exact Prod.Lex.left _ _ (Marks.free_lt_of_mark? _h)

/-- The states reachable by sigma transitions alone, the state itself first. -/
def closure (g : Graph ν) (s : Nat) : List Nat := g.closureFrom (Marks.empty _) [s]

/-- What the closure of a state comes to: whether it accepts, and the transitions other than sigma
transitions that leave it. -/
structure Closed (ν : Type) where
  accepting : Bool
  leaving : List (Transition ν)

def closed (g : Graph ν) (s : Nat) : Closed ν :=
  let members := g.closure s
  ⟨members.any g.isAccepting,
    members.flatMap fun m => (g.outgoing m).filter fun t => !t.condition.isSigma⟩

/-- The closures of all states. Each is worked out when it is first looked up. -/
structure Closures (g : Graph ν) where
  cells : Array (Thunk (Closed ν))
  get_eq : ∀ (s : Nat) (h : s < cells.size), cells[s].get = g.closed s

/-- The closures of an automaton, none of them worked out yet. -/
def closures (g : Graph ν) : Closures g where
  cells := Array.ofFn fun s : Fin g.states.size => Thunk.mk fun _ => g.closed s
  get_eq s h := by simp [Thunk.get]

namespace Closures

def lookup {g : Graph ν} (c : Closures g) (s : Nat) : Closed ν :=
  if h : s < c.cells.size then c.cells[s].get else g.closed s

@[simp]
theorem lookup_eq {g : Graph ν} (c : Closures g) (s : Nat) : c.lookup s = g.closed s := by
  unfold lookup
  split
  · exact c.get_eq s ‹_›
  · rfl

end Closures

end PatternAutomata.Graph
