import PatternAutomata.Pattern.Hir

/-!
# Patterns as trees

A tree keeps what a pattern says, part by part, before flags are applied to it and before the names
of properties are looked up.
-/
namespace PatternAutomata.Pattern

structure Literal where
  char : Char
  /-- Whether it is given as two hexadecimal digits, which can also mean a byte. -/
  byte : Bool

/-- A sign for a common class. -/
inductive Shorthand where
  | digit
  | space
  | word

/-- The characters that have a property, or the given value of it. -/
structure Property where
  name : List Char
  value : Option (List Char)
  negated : Bool

/-- The classes of ASCII characters that have a name. -/
inductive AsciiClass where
  | alnum
  | alpha
  | ascii
  | blank
  | cntrl
  | digit
  | graph
  | lower
  | print
  | punct
  | space
  | upper
  | word
  | xdigit

inductive ClassOp where
  | intersection
  | difference
  | symmetricDifference

inductive ClassTree where
  | literal (l : Literal)
  | range (lo hi : Literal)
  | ascii (name : AsciiClass) (negated : Bool)
  | property (p : Property)
  | shorthand (s : Shorthand) (negated : Bool)
  /-- A class between brackets. -/
  | bracketed (body : ClassTree) (negated : Bool)
  | union (items : List ClassTree)
  | operation (op : ClassOp) (left right : ClassTree)

inductive Assertion where
  | lineStart
  | lineEnd
  | textStart
  | textEnd
  | word (edge : WordEdge)

inductive Flag where
  | caseInsensitive
  | multiLine
  | dotMatchesNewline
  | swapGreed
  | unicode
  | crlf
  /-- Blanks and comments between the parts are skipped. -/
  | spaced
  deriving DecidableEq

/-- Flags with their new values, in the order in which they are written. -/
abbrev FlagChanges := List (Flag × Bool)

inductive GroupKind where
  | capture (index : Nat) (name : Option (List Char))
  | plain (changes : FlagChanges)

inductive Tree where
  | empty
  | literal (l : Literal)
  | dot
  | assertion (a : Assertion)
  | set (c : ClassTree)
  /-- New values of flags for what follows in the group. -/
  | flags (changes : FlagChanges)
  | repetition (body : Tree) (min : Nat) (max : Option Nat) (greedy : Bool)
  | group (kind : GroupKind) (body : Tree)
  | alternatives (branches : List Tree)
  | sequence (items : List Tree)

namespace ClassTree

/-- Several items of a class side by side. -/
def ofItems : List ClassTree → ClassTree
  | [item] => item
  | items => union items

mutual

/-- How many levels of brackets, unions and operations a class has. -/
def depth : ClassTree → Nat
  | bracketed body _ => depth body + 1
  | union [] => 0
  | union items => depthAll items + 1
  | operation _ left right => max (depth left) (depth right) + 1
  | literal _ | range _ _ | ascii _ _ | property _ | shorthand _ _ => 0

def depthAll : List ClassTree → Nat
  | [] => 0
  | item :: items => max (depth item) (depthAll items)

end

end ClassTree

namespace Tree

def ofItems : List Tree → Tree
  | [] => empty
  | [item] => item
  | items => sequence items

/-- Several branches, of which there is at least one. -/
def ofBranches : List Tree → Tree
  | [branch] => branch
  | branches => alternatives branches

mutual

/-- How many levels of groups, repetitions, sequences, alternatives and classes a tree has. -/
def depth : Tree → Nat
  | set c => c.depth
  | repetition body _ _ _ => depth body + 1
  | group _ body => depth body + 1
  | alternatives branches => depthAll branches + 1
  | sequence items => depthAll items + 1
  | empty | literal _ | dot | assertion _ | flags _ => 0

def depthAll : List Tree → Nat
  | [] => 0
  | item :: items => max (depth item) (depthAll items)

end

end Tree

/-- The value that a flag gets, if it is among the changes. -/
def FlagChanges.value? (changes : FlagChanges) (flag : Flag) : Option Bool :=
  List.lookup flag changes

end PatternAutomata.Pattern
