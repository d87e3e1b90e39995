import PatternAutomata.Automaton.Closure
import PatternAutomata.Search.Step

/-!
# Search by backtracking

All ways through the automaton are tried depth first, and no state is entered twice at one place.
The result is the last place, or the first one on demand, at which an accepting state is entered.
-/
namespace PatternAutomata.Graph

/-- What is still to be done: to enter a state at a place, or to try a transition from a place. -/
inductive Task (ν : Type) where
  | enter (state : Nat) (p : Place)
  | attempt (t : Transition ν) (p : Place)

/-- A bound on the number of tasks that are worked off before another state is entered. -/
def workload : List (Task ν) → Nat
  | [] => 0
  | .enter _ _ :: tasks => workload tasks + 1
  | .attempt _ _ :: tasks => workload tasks + 2

/-- Whether a search for the earliest end has no use for a place. -/
def isLate (earliest : Bool) (best : Option Nat) (p : Place) : Bool :=
  earliest && best.any (· ≤ p.pos)

def later (best : Option Nat) (pos : Nat) : Option Nat :=
  match best with
  | none => some pos
  | some b => some (max b pos)

/-- Works off the tasks, the first one first. -/
def explore {g : Graph ν} (closures : Closures g) (probe : Probe ν) (earliest : Bool)
    (seen : Marks n) (best : Option Nat) : List (Task ν) → Except SearchError (Option Nat)
  | [] => .ok best
  | .attempt t p :: tasks =>
    if isLate earliest best p then explore closures probe earliest seen best tasks
    else
      match t.condition.step probe p with
      | .error e => .error e
      | .ok none => explore closures probe earliest seen best tasks
      | .ok (some q) => explore closures probe earliest seen best (.enter t.target q :: tasks)
  | .enter s p :: tasks =>
    if isLate earliest best p then explore closures probe earliest seen best tasks
    else
      match _h : seen.mark? (p.pos * g.states.size + s) with
      | none => explore closures probe earliest seen best tasks
      | some seen' =>
        let closed := closures.lookup s
        let attempts := closed.leaving.map (Task.attempt · p)
        if closed.accepting then
          if earliest then
            if p.pos = 0 then .ok (some 0)
            else explore closures probe earliest seen' (some p.pos) tasks
          else
            if p.rest.isEmpty then .ok (later best p.pos)
            else explore closures probe earliest seen' (later best p.pos) (attempts ++ tasks)
        else explore closures probe earliest seen' best (attempts ++ tasks)
termination_by tasks => (seen.free, workload tasks)
decreasing_by
  all_goals first
    | exact Prod.Lex.left _ _ (Marks.free_lt_of_mark? _h)
    | exact Prod.Lex.right _ (by simp [workload])

/-- How many characters of a window the automaton consumes, by backtracking. -/
def backtrack (g : Graph ν) (probe : Probe ν) (earliest : Bool) (window : List Char) :
    Except SearchError (Option Nat) :=
  match g.initial with
  | none => .error .missingInitialState
  | some s =>
    explore g.closures probe earliest (Marks.empty (g.states.size * (window.length + 1))) none
      [.enter s ⟨0, window⟩]

end PatternAutomata.Graph
