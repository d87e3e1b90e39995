import PatternAutomata.Automaton.Graph
import PatternAutomata.Automaton.Numbering

/-!
# Compaction

Deleted and idle elements are dropped and the rest renumbered without gaps. The order of states and
transitions stays.
-/
namespace PatternAutomata.Graph

/-- The edge with both ends renumbered by their places among the kept states. -/
def rename? (kept : Numbering Nat) (e : Edge ν) : Option (Edge ν) := do
  let source ← kept.place? e.source
  let target ← kept.place? e.target
  return ⟨source, target, e.condition⟩

/-- Whether a state is the initial one or has a transition. -/
def isUsed (g : Graph ν) (s : Nat) : Bool :=
  g.initial == some s ||
    g.states[s]?.any fun state => !state.incoming.isEmpty || !state.outgoing.isEmpty

/-- The automaton without deleted elements, idle states and repeated transitions. -/
def compact [DecidableEq ν] [Hashable ν] (tag : Nat) (g : Graph ν) : Graph ν :=
  let kept := g.liveStates.filter g.isUsed
  let places := Numbering.ofList kept
  let edges := g.liveTransitions.filterMap fun t => rename? places t.1.toEdge
  build tag (kept.map g.isAccepting) (distinct edges) (g.initial.bind places.place?)

end PatternAutomata.Graph
