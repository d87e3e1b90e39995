import PatternAutomata.Automaton.Graph
import PatternAutomata.Error

/-!
# Changing an automaton

States and transitions are addressed by identifiers, which name the automaton that issued them.
Every change first makes sure that its identifiers are its own and alive; a change that fails
leaves no trace.
-/
namespace PatternAutomata

/-- The name of a state of the automaton with the tag `owner`. -/
structure StateId where
  owner : Nat
  index : Nat
  deriving DecidableEq

/-- The name of a transition of the automaton with the tag `owner`. -/
structure TransitionId where
  owner : Nat
  index : Nat
  deriving DecidableEq

namespace Graph

/-- A state of the automaton by its name, deleted or not. -/
def state? (g : Graph ν) (id : StateId) : Option State :=
  if id.owner = g.tag then g.states[id.index]? else none

/-- A transition of the automaton by its name, deleted or not. -/
def transition? (g : Graph ν) (id : TransitionId) : Option (Transition ν) :=
  if id.owner = g.tag then g.transitions[id.index]? else none

def ownState (g : Graph ν) (id : StateId) : Except Error State :=
  match g.state? id with
  | some s => .ok s
  | none => .error (.foreignState id.index)

/-- The state of a name, which has to be the automaton's own and alive. -/
def liveState (g : Graph ν) (id : StateId) : Except Error State := do
  let s ← g.ownState id
  if s.deleted then .error (.deletedState id.index) else .ok s

def addState (g : Graph ν) : Graph ν × StateId :=
  (g.addBareState false, ⟨g.tag, g.states.size⟩)

def setAccepting (g : Graph ν) (id : StateId) : Except Error (Graph ν) := do
  let _ ← g.liveState id
  return { g with states := g.states.modify id.index fun s => { s with accepting := true } }

def setInitial (g : Graph ν) (id : StateId) : Except Error (Graph ν) := do
  let _ ← g.liveState id
  return { g with initial := some id.index }

def addTransition (g : Graph ν) (source target : StateId) (c : Condition ν) :
    Except Error (Graph ν × TransitionId) := do
  let _ ← g.liveState source
  let _ ← g.liveState target
  return (g.connect ⟨source.index, target.index, c⟩, ⟨g.tag, g.transitions.size⟩)

/-- The number of a transition with the given target and condition among the given numbers. -/
def edgeAmong? [DecidableEq ν] (g : Graph ν) (target : StateId) (c : Condition ν)
    (among : Array Nat) : Option Nat :=
  among.find? fun t => g.transitions[t]?.any fun t =>
    target.owner = g.tag && t.target = target.index && t.condition = c

/-- One more transition between two states, unless there already is an equal one. -/
def addTransitionOnce [DecidableEq ν] (g : Graph ν) (source target : StateId)
    (c : Condition ν) : Except Error (Graph ν × TransitionId) := do
  let s ← g.liveState source
  match g.edgeAmong? target c s.outgoing with
  | some t => return (g, ⟨g.tag, t⟩)
  | none => g.addTransition source target c

/-- Marks a transition as deleted and unlinks it from both of its ends. -/
def unlink (g : Graph ν) (t : Nat) : Graph ν :=
  match g.transitions[t]? with
  | none => g
  | some tr =>
    let leave (s : State) : State := { s with outgoing := s.outgoing.filter (· ≠ t) }
    let enter (s : State) : State := { s with incoming := s.incoming.filter (· ≠ t) }
    { g with
      states := (g.states.modify tr.source leave).modify tr.target enter
      transitions := g.transitions.modify t fun tr => { tr with deleted := true } }

def deleteTransition (g : Graph ν) (id : TransitionId) : Except Error (Graph ν) :=
  match g.transition? id with
  | none => .error (.foreignTransition id.index)
  | some t =>
    if t.deleted then .error (.transitionAlreadyDeleted id.index) else .ok (g.unlink id.index)

/-- Deletes those of the given transitions that are still alive. -/
def deleteTransitions (g : Graph ν) : List Nat → Except Error (Graph ν)
  | [] => .ok g
  | t :: rest =>
    if g.transitions[t]?.any Transition.deleted then g.deleteTransitions rest
    else do (← g.deleteTransition ⟨g.tag, t⟩).deleteTransitions rest

def deleteState (g : Graph ν) (id : StateId) : Except Error (Graph ν) := do
  let s ← g.ownState id
  if s.deleted then .error (.stateAlreadyDeleted id.index)
  else if g.initial = some id.index then .error (.initialStateDeletion id.index)
  else
    let g ← g.deleteTransitions (s.incoming ++ s.outgoing).toList
    return { g with states := g.states.modify id.index fun s => { s with deleted := true } }

end Graph

end PatternAutomata
