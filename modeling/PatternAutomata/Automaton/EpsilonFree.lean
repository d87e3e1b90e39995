import PatternAutomata.Automaton.Closure
import PatternAutomata.Automaton.Compaction
import PatternAutomata.Error

/-!
# Automata without sigma transitions

A state that only sigma transitions enter is dropped; every other state takes over the transitions
and the acceptance of its sigma closure.
-/
namespace PatternAutomata.Graph

/-- The states that stay when sigma transitions are removed. -/
def anchors (g : Graph ν) (initial : Nat) : List Nat :=
  g.liveStates.filter fun s =>
    s == initial || (g.incoming s).any fun t => !t.condition.isSigma

/-- An equivalent automaton without sigma transitions. -/
def removeEpsilon [DecidableEq ν] [Hashable ν] (tag : Nat) (g : Graph ν) :
    Except Error (Graph ν) :=
  match g.initial with
  | none => .error .missingInitialState
  | some initial =>
    let kept := g.anchors initial
    let places := Numbering.ofList kept
    let closed := kept.map fun s => (s, g.closed s)
    let edges := closed.flatMap fun (s, c) =>
      c.leaving.filterMap fun t => rename? places ⟨s, t.target, t.condition⟩
    .ok (build tag (closed.map fun c => c.2.accepting) (distinct edges) (places.place? initial))

end PatternAutomata.Graph
