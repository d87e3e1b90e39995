import PatternAutomata.Automaton.Determinized
import PatternAutomata.Automaton.EpsilonFree
import PatternAutomata.Automaton.Nested
import PatternAutomata.Automaton.Quotient
import PatternAutomata.Construction.Fragment
import Std.Data.HashMap.Lemmas

/-!
# Compiled expressions

An expression is checked for malformed parts, turned into an automaton, and prepared for the mode
in which it will be searched. The bodies of lookaheads are compiled in the same way, the innermost
ones first and each distinct body once.
-/
namespace PatternAutomata

namespace Expr

/-- What is wrong with an expression itself, its parts apart. -/
def ownFault? : Expr → Option Error
  | sequence [] => some .emptySequence
  | alternatives [] => some .emptyAlternatives
  | repetition _ min max =>
    if max = some 0 || max.any (· < min) then some (.invalidBounds min max) else none
  | _ => none

def fault? (e : Expr) : Option Error := e.walk.findSome? ownFault?

def body? : Expr → Option Expr
  | lookahead body _ => some body
  | _ => none

/-- The distinct bodies of lookaheads, each after the bodies inside it. -/
def bodies (e : Expr) : List Expr := distinct (e.walk.filterMap body?).reverse

end Expr

namespace Graph

/-- The automaton prepared for a mode. -/
def prepare [DecidableEq ν] [Hashable ν] (tag : Nat) (mode : Mode) (g : Graph ν) :
    Except Error (Graph ν) :=
  match mode with
  | .nfa => .ok g
  | .dfa => do (← g.removeEpsilon tag).determinize tag
  | .minimal => do (← (← g.removeEpsilon tag).determinize tag).minimize tag

abbrev Compilations := Std.HashMap Expr Nested

/-- The automaton with the nested automata of the bodies of its checks. -/
def fill (table : Compilations) (g : Graph Expr) : Automaton :=
  g.mapNested fun _ body => table.getD body (.of (Graph.empty 0))

/-- The prepared automaton of a well-formed expression, whose bodies the table holds. -/
def compileWith (table : Compilations) (tag : Nat) (mode : Mode) (e : Expr) :
    Except Error Automaton :=
  return ((← (Graph.ofExpr tag mode e).prepare tag mode).fill table)

/-- The nested automata of a list of bodies, each after the bodies inside it. They get tags from
`tag` on. -/
def compileBodies (mode : Mode) (tag : Nat) (table : Compilations) :
    List Expr → Except Error Compilations
  | [] => .ok table
  | body :: rest => do
    let g ← compileWith table tag mode body
    compileBodies mode (tag + 1) (table.insert body (.of g)) rest

/-- The automaton of an expression, prepared for a mode. Its tag is `tag`, and its nested automata
have the tags that follow. -/
def compile (tag : Nat) (mode : Mode) (e : Expr) : Except Error Automaton :=
  match e.fault? with
  | some fault => .error fault
  | none => do compileWith (← compileBodies mode (tag + 1) ∅ e.bodies) tag mode e

/-- An upper bound on the number of tags that compiling an expression uses. -/
def tagsUsed (e : Expr) : Nat := 1 + e.bodies.length

/-- The automaton of an expression as constructed, with nested automata made by a function from the
body and the number of the transition. -/
def construct (tag : Nat) (mode : Mode) (nest : Nat → Expr → Nested) (e : Expr) :
    Except Error Automaton :=
  match e.fault? with
  | some fault => .error fault
  | none => .ok ((Graph.ofExpr tag mode e).mapNested nest)

end Graph

end PatternAutomata
