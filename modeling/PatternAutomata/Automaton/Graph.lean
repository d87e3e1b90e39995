import PatternAutomata.CharSet.Basic

/-!
# Automata

An automaton is a graph of states and transitions, each known by its number. Numbers are never
used twice: a deleted element keeps its place. A transition carries a condition: a character or a
set of characters to consume, nothing (a sigma transition), or a check, which looks ahead with a
nested automaton. What a nested automaton is, is left open here (`ν`).
-/
namespace PatternAutomata

/-- How an automaton is prepared and searched. -/
inductive Mode where
  /-- As constructed, by backtracking. -/
  | nfa
  /-- Made deterministic, by following the one transition that applies. -/
  | dfa
  /-- Made deterministic and as small as possible. -/
  | minimal
  deriving DecidableEq, Hashable

/-- What has to hold for a transition to be taken. -/
inductive Condition (ν : Type) where
  | char (c : Char)
  | set (s : CharSet)
  | sigma
  /-- The nested automaton finds a match from here on, or finds none if `negated`. -/
  | check (nested : ν) (mode : Mode) (negated : Bool)
  deriving DecidableEq

instance [Hashable ν] : Hashable (Condition ν) where
  hash
    | .char c => mixHash 1 (hash c.val)
    | .set s => mixHash 2 (hash s)
    | .sigma => 3
    | .check nested mode negated => mixHash 4 (hash (nested, mode, negated))

namespace Condition

/-- The condition to consume a character of a set, in its simplest form. -/
def ofSet (s : CharSet) : Condition ν :=
  match s.single? with
  | some c => char c
  | none => set s

def isSigma : Condition ν → Bool
  | sigma => true
  | _ => false

def isConsuming : Condition ν → Bool
  | char _ => true
  | set _ => true
  | _ => false

/-- The characters that the condition consumes, if it consumes any. -/
def charSet? : Condition ν → Option CharSet
  | char c => some (CharSet.single c)
  | set s => some s
  | _ => none

/-- The condition with another notion of nested automata. -/
def map (f : ν → μ) : Condition ν → Condition μ
  | char c => char c
  | set s => set s
  | sigma => sigma
  | check nested mode negated => check (f nested) mode negated

end Condition

/-- A way from one state to another under a condition. -/
structure Edge (ν : Type) where
  source : Nat
  target : Nat
  condition : Condition ν
  deriving DecidableEq, Hashable

/-- An edge in its place in an automaton. -/
structure Transition (ν : Type) extends Edge ν where
  deleted : Bool
  deriving DecidableEq

/-- A state, with the transitions that enter and leave it in the order of their creation. -/
structure State where
  accepting : Bool
  deleted : Bool
  incoming : Array Nat
  outgoing : Array Nat
  deriving DecidableEq

def State.bare (accepting : Bool) : State := ⟨accepting, false, #[], #[]⟩

/-- An automaton over nested automata `ν`. The tag tells it from all other automata. -/
structure Graph (ν : Type) where
  tag : Nat
  states : Array State
  transitions : Array (Transition ν)
  initial : Option Nat
  deriving DecidableEq

namespace Graph

def empty (tag : Nat) : Graph ν := ⟨tag, #[], #[], none⟩

def addBareState (g : Graph ν) (accepting : Bool) : Graph ν :=
  { g with states := g.states.push (State.bare accepting) }

/-- One more transition, registered at both of its ends. -/
def connect (g : Graph ν) (e : Edge ν) : Graph ν :=
  let t := g.transitions.size
  let leave (s : State) : State := { s with outgoing := s.outgoing.push t }
  let enter (s : State) : State := { s with incoming := s.incoming.push t }
  { g with
    states := (g.states.modify e.source leave).modify e.target enter
    transitions := g.transitions.push ⟨e, false⟩ }

/-- The automaton with the given states, told by whether they accept, and the given edges. -/
def build (tag : Nat) (accepting : List Bool) (edges : List (Edge ν)) (initial : Option Nat) :
    Graph ν :=
  let bare := accepting.foldl addBareState (empty tag)
  { edges.foldl connect bare with initial }

def liveStates (g : Graph ν) : List Nat :=
  (List.range g.states.size).filter fun s => g.states[s]?.any fun state => !state.deleted

def liveTransitions (g : Graph ν) : List (Transition ν × Nat) :=
  g.transitions.toList.zipIdx.filter fun t => !t.1.deleted

def outgoing (g : Graph ν) (s : Nat) : List (Transition ν) :=
  match g.states[s]? with
  | some state => state.outgoing.toList.filterMap (g.transitions[·]?)
  | none => []

def incoming (g : Graph ν) (s : Nat) : List (Transition ν) :=
  match g.states[s]? with
  | some state => state.incoming.toList.filterMap (g.transitions[·]?)
  | none => []

def isAccepting (g : Graph ν) (s : Nat) : Bool :=
  g.states[s]?.any fun state => state.accepting && !state.deleted

def stateCount (g : Graph ν) : Nat := g.liveStates.length

def transitionCount (g : Graph ν) : Nat := g.liveTransitions.length

/-- Whether any transition consumes and checks nothing. -/
def hasSigma (g : Graph ν) : Bool := g.liveTransitions.any fun t => t.1.condition.isSigma

/-- The automaton with another notion of nested automata. The new nested automaton of a
transition may depend on its number. -/
def mapNested (f : Nat → ν → μ) (g : Graph ν) : Graph μ :=
  { g with transitions := g.transitions.mapIdx fun i t =>
      { t with condition := t.condition.map (f i) } }

/-- The nested automata of the transitions, in the order of the transitions. -/
def nested (g : Graph ν) : List ν :=
  g.liveTransitions.filterMap fun t =>
    match t.1.condition with
    | .check n _ _ => some n
    | _ => none

end Graph

end PatternAutomata
