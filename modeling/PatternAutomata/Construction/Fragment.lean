import PatternAutomata.Automaton.Graph
import PatternAutomata.Expr.Basic

/-!
# From expressions to automata

An expression becomes a fragment, a piece of automaton with an entry and an exit; larger fragments
are glued from smaller ones with sigma transitions. A lookahead becomes a check on the body itself,
which is an expression here. The bodies are replaced by automata later.
-/
namespace PatternAutomata

/-- The part of an automaton that is already there: how many states, and the edges in the order of
their creation. -/
structure Draft where
  size : Nat
  edges : Array (Edge Expr)

/-- The entry and the exit of a piece of automaton. -/
structure Fragment where
  entry : Nat
  exit : Nat

namespace Fragment

abbrev Step := StateM Draft

def newState : Step Nat := modifyGet fun d => (d.size, { d with size := d.size + 1 })

def newEdge (source target : Nat) (c : Condition Expr) : Step Unit :=
  modify fun d => { d with edges := d.edges.push ⟨source, target, c⟩ }

def single (c : Condition Expr) : Step Fragment := do
  let entry ← newState
  let exit ← newState
  newEdge entry exit c
  return ⟨entry, exit⟩

/-- New states after a given one, with an edge to each that consumes the next character. -/
def chainFrom (last : Nat) : List Char → Step Nat
  | [] => return last
  | c :: rest => do
    let next ← newState
    newEdge last next (.char c)
    chainFrom next rest

def chain (text : List Char) : Step Fragment := do
  let entry ← newState
  return ⟨entry, ← chainFrom entry text⟩

/-- Appends fragments to a given exit, one after another. -/
def appendFrom (exit : Nat) : List (Step Fragment) → Step Nat
  | [] => return exit
  | item :: rest => do
    let f ← item
    newEdge exit f.entry .sigma
    appendFrom f.exit rest

def inSequence : List (Step Fragment) → Step Fragment
  | [] => chain []
  | item :: rest => do
    let f ← item
    return ⟨f.entry, ← appendFrom f.exit rest⟩

/-- Places fragments side by side between two states. -/
def branches (entry exit : Nat) : List (Step Fragment) → Step Unit
  | [] => return
  | item :: rest => do
    let f ← item
    newEdge entry f.entry .sigma
    newEdge f.exit exit .sigma
    branches entry exit rest

def sideBySide (items : List (Step Fragment)) : Step Fragment := do
  let entry ← newState
  let exit ← newState
  branches entry exit items
  return ⟨entry, exit⟩

/-- Appends copies of a fragment to a given exit; also returns the last copy. -/
def copies (body : Step Fragment) : (n : Nat) → (tail : Nat) → (last : Option Fragment) →
    Step (Nat × Option Fragment)
  | 0, tail, last => return (tail, last)
  | n + 1, tail, _ => do
    let f ← body
    newEdge tail f.entry .sigma
    copies body n f.exit (some f)

/-- Appends copies of a fragment to a given exit, each of which may be left out together with those
after it. -/
def optionalCopies (body : Step Fragment) (exit : Nat) : (n : Nat) → (tail : Nat) → Step Nat
  | 0, tail => return tail
  | n + 1, tail => do
    let f ← body
    newEdge tail f.entry .sigma
    newEdge tail exit .sigma
    optionalCopies body exit n f.exit

/-- A fragment at least `min` times, and at most `max` times if there is a bound. -/
def repeated (body : Step Fragment) (min : Nat) (max : Option Nat) : Step Fragment := do
  let entry ← newState
  let (tail, last) ← copies body min entry none
  let exit ← newState
  match max with
  | some max =>
    let tail ← optionalCopies body exit (max - min) tail
    newEdge tail exit .sigma
  | none =>
    let loop ← match last with
      | some f => pure f
      | none => do
        let f ← body
        newEdge tail f.entry .sigma
        newEdge tail exit .sigma
        pure f
    newEdge loop.exit loop.entry .sigma
    newEdge loop.exit exit .sigma
  return ⟨entry, exit⟩

mutual

/-- The fragment of an expression. Checks are to be run in the given mode. -/
def ofExpr (mode : Mode) : Expr → Step Fragment
  | .charClass c => single (.set c.chars)
  | .literal text => chain text
  | .sequence items => inSequence (ofExprs mode items)
  | .alternatives items => sideBySide (ofExprs mode items)
  | .repetition body min max => repeated (ofExpr mode body) min max
  | .lookahead body negated => single (.check body mode negated)

def ofExprs (mode : Mode) : List Expr → List (Step Fragment)
  | [] => []
  | e :: es => ofExpr mode e :: ofExprs mode es

end

end Fragment

/-- The automaton of an expression, with lookahead bodies in the place of nested automata. -/
def Graph.ofExpr (tag : Nat) (mode : Mode) (e : Expr) : Graph Expr :=
  let (f, d) := (Fragment.ofExpr mode e).run ⟨0, #[]⟩
  build tag ((List.range d.size).map (· == f.exit)) d.edges.toList (some f.entry)

end PatternAutomata
