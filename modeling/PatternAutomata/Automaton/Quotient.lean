import PatternAutomata.Automaton.Graph
import PatternAutomata.Automaton.Numbering
import PatternAutomata.Error

/-!
# The smallest equivalent automaton

States are divided by whether they accept, and the division is refined until states of one block
agree on where every character, sigma transition and check leads. Each block becomes one state.
-/
namespace PatternAutomata.Graph

/-- A division of states into blocks, which are numbered in the order of their first states. -/
structure Division where
  blocks : Array Nat
  size : Nat

namespace Division

def block (d : Division) (s : Nat) : Nat := d.blocks[s]?.getD 0

/-- The division of states, given with a key each, into those with equal keys. -/
def ofKeys [DecidableEq κ] [Hashable κ] (slots : Nat) (keys : List (Nat × κ)) : Division :=
  let (n, blocks) := keys.foldl (fun (n, blocks) (s, k) =>
    let (n, i) := Numbering.number n k
    (n, blocks.setIfInBounds s i)) (Numbering.empty, Array.replicate slots 0)
  ⟨blocks, n.size⟩

/-- The first state of each block. -/
def representatives (d : Division) (states : List Nat) : List Nat :=
  (states.foldl (fun firsts s => if d.block s = firsts.size then firsts.push s else firsts)
    #[]).toList

end Division

/-- Adds characters that lead to a block to what leads to blocks, in the order of the blocks. -/
def addLed (block : Nat) (s : CharSet) : List (Nat × CharSet) → List (Nat × CharSet)
  | [] => [(block, s)]
  | l :: rest =>
    if block < l.1 then (block, s) :: l :: rest
    else if block = l.1 then (block, l.2 ∪ s) :: rest
    else l :: addLed block s rest

/-- The order of pairs by the first numbers, and by the second ones where those are equal. -/
def precedes (a b : Nat × Nat) : Bool := a.1 < b.1 || (a.1 == b.1 && a.2 ≤ b.2)

/-- What leaves a state: the characters of its consuming transitions and the numbers of the
conditions of the others, each with its target. -/
structure Leaving where
  state : Nat
  consuming : List (CharSet × Nat)
  silent : List (Nat × Nat)

namespace Leaving

/-- Where the consuming transitions lead: blocks in rising order, each with the characters that
lead there. -/
def consumingTo (l : Leaving) (d : Division) : List (Nat × CharSet) :=
  l.consuming.foldl (fun led (s, target) => addLed (d.block target) s led) []

/-- Where the other transitions lead: numbers of conditions with blocks, in order, each once. -/
def silentTo (l : Leaving) (d : Division) : List (Nat × Nat) :=
  (distinct (l.silent.map fun (c, target) => (c, d.block target))).mergeSort precedes

/-- What states of one block have to agree on. -/
def key (l : Leaving) (d : Division) : Nat × List (Nat × CharSet) × List (Nat × Nat) :=
  (d.block l.state, l.consumingTo d, l.silentTo d)

end Leaving

variable [DecidableEq ν] [Hashable ν]

def silentConditions (g : Graph ν) : Numbering (Condition ν) :=
  .ofList ((g.liveTransitions.map fun t => t.1.condition).filter fun c => !c.isConsuming)

/-- What leaves a state, with the given numbers of conditions. -/
def leaving (g : Graph ν) (conditions : Numbering (Condition ν)) (s : Nat) : Leaving where
  state := s
  consuming := (g.outgoing s).filterMap fun t => t.condition.charSet?.map (·, t.target)
  silent := (g.outgoing s).filterMap fun t => (conditions.place? t.condition).map (·, t.target)

def Division.refine (slots : Nat) (leaving : List Leaving) (d : Division) : Division :=
  .ofKeys slots (leaving.map fun l => (l.state, l.key d))

/-- Refines a division until the number of blocks stays, at most `fuel` times. -/
def Division.refineFrom (slots : Nat) (leaving : List Leaving) :
    (fuel : Nat) → Division → Division
  | 0, d => d
  | fuel + 1, d =>
    let finer := refine slots leaving d
    if finer.size = d.size then finer else refineFrom slots leaving fuel finer

/-- The coarsest division of the live states that agrees with acceptance and with all
transitions. -/
def division (g : Graph ν) : Division :=
  let states := g.liveStates
  let conditions := g.silentConditions
  .refineFrom g.states.size (states.map (g.leaving conditions)) states.length
    (.ofKeys g.states.size (states.map fun s => (s, g.isAccepting s)))

/-- The edges of the state of a block, taken from a state in the block. -/
def blockEdges (g : Graph ν) (d : Division) (b s : Nat) : List (Edge ν) :=
  let silent := ((g.outgoing s).filter fun t => !t.condition.isConsuming).map fun t =>
    Edge.mk b (d.block t.target) t.condition
  let consuming := ((g.leaving .empty s).consumingTo d).map fun (target, set) =>
    ⟨b, target, .ofSet set⟩
  distinct silent ++ consuming

/-- An equivalent automaton with one state for each block of states. -/
def minimize (tag : Nat) (g : Graph ν) : Except Error (Graph ν) :=
  match g.initial with
  | none => .error .missingInitialState
  | some initial =>
    let d := g.division
    let chosen := d.representatives g.liveStates
    .ok (build tag (chosen.map g.isAccepting)
      (chosen.zipIdx.flatMap fun (s, b) => g.blockEdges d b s) (some (d.block initial)))

end PatternAutomata.Graph
