import PatternAutomata.Automaton.Atoms
import PatternAutomata.Automaton.Graph
import PatternAutomata.Automaton.Marks
import PatternAutomata.Error

/-!
# Deterministic automata

The subset construction. A state of the result stands for a group of states that the search may be
in, together with the outcomes of checks that are decided at the current position. A state whose
group meets an undecided check becomes a decision: one transition if the check finds a match and
one if it finds none. Consuming a character forgets all outcomes.
-/
namespace PatternAutomata.Graph

variable [DecidableEq ν] [Hashable ν]

/-- A state of the result: a group of states in rising order, and the outcomes of checks by their
numbers in rising order. -/
structure Node where
  group : List Nat
  decided : List (Nat × Bool)
  deriving DecidableEq, Hashable

/-- Checks, numbered in the order in which they are met. -/
abbrev Checks (ν : Type) [DecidableEq ν] [Hashable ν] := Numbering (ν × Mode)

/-- The construction under way. Nodes are numbered in the order of their discovery. -/
structure Subsets (ν : Type) [DecidableEq ν] [Hashable ν] where
  checks : Checks ν
  nodes : Numbering Node
  edges : Array (Edge ν)

def Subsets.link (b : Subsets ν) (source : Nat) (c : Condition ν) (node : Node) : Subsets ν :=
  match b with
  | ⟨checks, nodes, edges⟩ =>
    let (nodes, target) := nodes.number node
    ⟨checks, nodes, edges.push ⟨source, target, c⟩⟩

/-- The outcomes with one more, in rising order of the numbers. -/
def decide (check : Nat) (found : Bool) : List (Nat × Bool) → List (Nat × Bool)
  | [] => [(check, found)]
  | d :: rest => if check < d.1 then (check, found) :: d :: rest else d :: decide check found rest

/-- Whether the decided outcomes let a check of the given number pass. -/
def passes (decided : List (Nat × Bool)) (check : Nat) (negated : Bool) : Bool :=
  decided.any fun d => d.1 == check && d.2 != negated

/-- The checks among some transitions that the decided outcomes let pass, by the states they lead
to; checks are numbered on the way. -/
def passing (decided : List (Nat × Bool)) (checks : Checks ν) :
    List (Transition ν) → Checks ν × List Nat
  | [] => (checks, [])
  | t :: rest =>
    match t.condition with
    | .check nested mode negated =>
      let (checks, i) := checks.number (nested, mode)
      let (checks, targets) := passing decided checks rest
      (checks, if passes decided i negated then t.target :: targets else targets)
    | _ => passing decided checks rest

/-- Marks the states that were free and returns those, the last one first. -/
def markNew (m : Marks n) : List Nat → Marks n × List Nat
  | [] => (m, [])
  | s :: rest =>
    match m.mark? s with
    | none => markNew m rest
    | some m =>
      let (m, fresh) := markNew m rest
      (m, fresh ++ [s])

theorem free_markNew (m : Marks n) (ss : List Nat) :
    (markNew m ss).1.free + (markNew m ss).2.length ≤ m.free := by
  induction ss generalizing m with
  | nil => simp [markNew]
  | cons s rest ih =>
    unfold markNew
    split
    · exact ih m
    · next m' h =>
      have := Marks.free_lt_of_mark? h
      have := ih m'
      simp only [List.length_append, List.length_singleton]
      omega

/-- Extends a group by all states that passing checks lead to. The pending states are taken the
first one first. -/
def closeFrom (g : Graph ν) (decided : List (Nat × Bool)) (checks : Checks ν)
    (group : Marks g.states.size) : List Nat → Checks ν × List Nat
  | [] => (checks, group.toList)
  | s :: pending =>
    let found := passing decided checks (g.outgoing s)
    let marked := markNew group found.2
    closeFrom g decided found.1 marked.1 (marked.2 ++ pending)
termination_by pending => group.free + pending.length
decreasing_by
  have := free_markNew group (passing decided checks (g.outgoing s)).2
  simp only [List.length_append, List.length_cons]
  omega

/-- The group of states that some states make up under the decided outcomes. -/
def close (g : Graph ν) (decided : List (Nat × Bool)) (checks : Checks ν) (states : List Nat) :
    Checks ν × List Nat :=
  let marked := markNew (Marks.empty g.states.size) states
  closeFrom g decided checks marked.1 marked.1.toList.reverse

def numbers (checks : Checks ν) : List (Transition ν) → Checks ν × List Nat
  | [] => (checks, [])
  | t :: rest =>
    match t.condition with
    | .check nested mode _ =>
      let (checks, i) := checks.number (nested, mode)
      let (checks, is) := numbers checks rest
      (checks, i :: is)
    | _ => numbers checks rest

/-- Adds the edge of the sigma transitions of a node, if it has any. -/
def Subsets.linkSigma (g : Graph ν) (b : Subsets ν) (source : Nat) (node : Node)
    (targets : List Nat) : Subsets ν :=
  if targets.isEmpty then b
  else
    match b with
    | ⟨checks, nodes, edges⟩ =>
      let (checks, group) := g.close node.decided checks targets
      link ⟨checks, nodes, edges⟩ source .sigma ⟨group, node.decided⟩

def Subsets.linkOutcome (g : Graph ν) (b : Subsets ν) (source : Nat) (node : Node) (check : Nat)
    (nested : ν) (mode : Mode) (found : Bool) : Subsets ν :=
  match b with
  | ⟨checks, nodes, edges⟩ =>
    let decided := decide check found node.decided
    let (checks, group) := g.close decided checks node.group
    link ⟨checks, nodes, edges⟩ source (.check nested mode !found) ⟨group, decided⟩

def expand (g : Graph ν) (b : Subsets ν) (source : Nat) (node : Node) : Subsets ν :=
  match b with
  | ⟨checks, nodes, edges⟩ =>
    let leaving := node.group.flatMap g.outgoing
    let (checks, met) := numbers checks leaving
    let undecided := met.filter fun i => !node.decided.any fun d => d.1 == i
    let sigma := leaving.filterMap fun t => if t.condition.isSigma then some t.target else none
    let b := Subsets.linkSigma g ⟨checks, nodes, edges⟩ source node sigma
    match undecided.min? with
    | some i =>
      match b.checks.keys[i]? with
      | none => b
      | some (nested, mode) =>
        let b := b.linkOutcome g source node i nested mode true
        b.linkOutcome g source node i nested mode false
    | none =>
      let consuming := leaving.filterMap fun t => t.condition.charSet?.map (·, t.target)
      (atoms consuming).foldl (fun b (s, group) => b.link source (.ofSet s) ⟨group, []⟩) b

/-- Expands the nodes from a given one on, at most `fuel` of them. -/
def expandFrom (g : Graph ν) : (fuel next : Nat) → Subsets ν → Subsets ν
  | 0, _, b => b
  | fuel + 1, next, b =>
    match b.nodes.keys[next]? with
    | none => b
    | some node => g.expandFrom fuel (next + 1) (g.expand b next node)

def checks (g : Graph ν) : List (ν × Mode) :=
  distinct (g.transitions.toList.filterMap fun t =>
    match t.condition with
    | .check nested mode _ => some (nested, mode)
    | _ => none)

/-- More nodes than this there cannot be: any group of states, and three states of knowledge about
each check. -/
def nodeBound (g : Graph ν) : Nat :=
  Nat.pow 2 g.states.size * Nat.pow 3 g.checks.length

/-- The construction before the first node is expanded. -/
def Subsets.start (initial : Nat) : Subsets ν :=
  ⟨.empty, .ofList [⟨[initial], []⟩], #[]⟩

/-- An equivalent automaton in which at most one transition of a state applies, sigma transitions
apart. -/
def determinize (tag : Nat) (g : Graph ν) : Except Error (Graph ν) :=
  match g.initial with
  | none => .error .missingInitialState
  | some initial =>
    let b := g.expandFrom g.nodeBound 0 (.start initial)
    let accepting := b.nodes.keys.toList.map fun node => node.group.any g.isAccepting
    .ok (build tag accepting b.edges.toList (some 0))

end PatternAutomata.Graph
