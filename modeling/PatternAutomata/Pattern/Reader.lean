import PatternAutomata.Pattern.Bracket
import PatternAutomata.Pattern.Opening
import PatternAutomata.Pattern.Repeat

/-!
# Reading patterns

A pattern is read part by part. What is open is kept beside the parts that are complete, so that
each part is added where it belongs without looking back. The nesting of the tree is limited, which
is checked at the end.
-/
namespace PatternAutomata.Pattern

/-- Branches that are being read, each with its last item first. -/
structure Level where
  /-- The complete branches, the last one first. -/
  branches : List Tree
  items : List Tree

/-- A group whose end has not been read. -/
structure OpenGroup where
  kind : GroupKind
  /-- What the group belongs to. -/
  outer : Level
  /-- Whether blanks are skipped around the group. -/
  spaced : Bool

/-- A class in brackets whose end has not been read. -/
structure OpenBracket where
  negated : Bool
  /-- What stands before the last operator, and the operator. -/
  operand : Option (ClassTree × ClassOp)
  /-- The items after the last operator, the last one first. -/
  items : List ClassTree

/-- What has been read of a pattern. -/
structure Reader where
  level : Level
  /-- The open groups, the innermost one first. -/
  groups : List OpenGroup
  /-- The open classes, the innermost one first. -/
  brackets : List OpenBracket
  spaced : Bool
  captures : Nat
  names : List (List Char)

namespace Level

def none : Level := ⟨[], []⟩

def push (l : Level) (t : Tree) : Level := { l with items := t :: l.items }

def branch (l : Level) : Tree := .ofItems l.items.reverse

/-- The level with its branch complete and another one begun. -/
def split (l : Level) : Level := ⟨l.branch :: l.branches, []⟩

def tree (l : Level) : Tree := .ofBranches (l.branch :: l.branches).reverse

end Level

namespace OpenBracket

def push (b : OpenBracket) (item : ClassTree) : OpenBracket := { b with items := item :: b.items }

/-- What has been read of the class. Operators are applied from left to right. -/
def body (b : OpenBracket) : ClassTree :=
  let last := ClassTree.ofItems b.items.reverse
  match b.operand with
  | none => last
  | some (left, op) => .operation op left last

def apply (b : OpenBracket) (op : ClassOp) : OpenBracket :=
  { b with operand := some (b.body, op), items := [] }

end OpenBracket

namespace Reader

def start : Reader := ⟨.none, [], [], false, 0, []⟩

def push (r : Reader) (t : Tree) : Reader := { r with level := r.level.push t }

def enter (r : Reader) : Opening → Reader
  | .flags changes =>
    { r.push (.flags changes) with spaced := (changes.value? .spaced).getD r.spaced }
  | .group (.plain changes) =>
    { r with
      level := .none
      groups := ⟨.plain changes, r.level, r.spaced⟩ :: r.groups
      spaced := (changes.value? .spaced).getD r.spaced }
  | .group (.capture index name) =>
    { r with
      level := .none
      groups := ⟨.capture index name, r.level, r.spaced⟩ :: r.groups
      captures := index
      names := name.toList ++ r.names }

def leave (r : Reader) : Except ReadError Reader :=
  match r.groups with
  | [] => .error .groupUnopened
  | g :: outer =>
    .ok { r with
      level := g.outer.push (.group g.kind r.level.tree)
      groups := outer
      spaced := g.spaced }

/-- Puts the last item under a repetition. Flags cannot be repeated. -/
def repeatLast (r : Reader) (bounds : Scanner Bounds) : Scanner Reader :=
  match r.level.items with
  | [] => .fail .repetitionMissing
  | .flags _ :: _ => .fail .repetitionMissing
  | item :: before => do
    let b ← bounds
    return { r with
      level := { r.level with items := .repetition item b.min b.max b.greedy :: before } }

def openBracket (r : Reader) : Scanner Reader := do
  let (negated, items) ← bracketStart r.spaced
  return { r with brackets := ⟨negated, none, items.reverse⟩ :: r.brackets }

/-- Takes a part that starts with the given character, outside brackets. -/
def takeOutside (r : Reader) (c : Char) : Scanner Reader :=
  match c with
  | '(' => do return r.enter (← opening r.spaced (r.captures + 1) r.names)
  | ')' => .ofExcept r.leave
  | '|' => return { r with level := r.level.split }
  | '[' => r.openBracket
  | '?' => r.repeatLast (signBounds 0 (some 1))
  | '*' => r.repeatLast (signBounds 0 none)
  | '+' => r.repeatLast (signBounds 1 none)
  | '{' => r.repeatLast (countedBounds r.spaced)
  | '\\' => do return r.push (← escape r.spaced)
  | '.' => return r.push .dot
  | '^' => return r.push (.assertion .lineStart)
  | '$' => return r.push (.assertion .lineEnd)
  | _ => return r.push (.literal ⟨c, false⟩)

/-- Completes the innermost class `b`. -/
def closeBracket (r : Reader) (b : OpenBracket) (outer : List OpenBracket) : Reader :=
  let c := ClassTree.bracketed b.body b.negated
  match outer with
  | [] => { r.push (.set c) with brackets := [] }
  | o :: outer => { r with brackets := o.push c :: outer }

/-- The operator that a character stands for when it is written twice. -/
def classOp? : Char → Option ClassOp
  | '&' => some .intersection
  | '-' => some .difference
  | '~' => some .symmetricDifference
  | _ => none

/-- The operator of which the first character has been taken, if it is one. -/
def operator? (c : Char) : Scanner (Option ClassOp) := do
  match classOp? c with
  | some op => if ← .accept (String.ofList [c]) then return some op else return none
  | none => return none

/-- Takes a part that starts with the given character, inside the innermost class `b`. -/
def takeInside (r : Reader) (b : OpenBracket) (outer : List OpenBracket) (c : Char) :
    Scanner Reader := do
  if c = '[' then
    match ← asciiClass? with
    | some item => return { r with brackets := b.push item :: outer }
    | none => r.openBracket
  else if c = ']' then return r.closeBracket b outer
  else
    match ← operator? c with
    | some op => return { r with brackets := b.apply op :: outer }
    | none => return { r with brackets := b.push (← bracketItem r.spaced c) :: outer }

/-- Takes the part of the pattern that starts with the given character. -/
def take (r : Reader) (c : Char) : Scanner Reader :=
  match r.brackets with
  | [] => r.takeOutside c
  | b :: outer => r.takeInside b outer c

/-- The tree of a pattern that has been read to its end. -/
def finish (r : Reader) : Except ReadError Tree :=
  if !r.brackets.isEmpty then .error .classUnclosed
  else if !r.groups.isEmpty then .error .groupUnclosed
  else .ok r.level.tree

def run (r : Reader) (cs : List Char) : Except ReadError Tree :=
  match h : nextPart r.spaced cs with
  | [] => r.finish
  | c :: rest =>
    match k : (r.take c).run rest with
    | .error e => .error e
    | .ok (r', left) =>
      have : left.length < cs.length := by
        have := length_nextPart_le r.spaced cs
        have := (r.take c).shrinks k
        rw [h, List.length_cons] at *
        omega
      run r' left
termination_by cs.length

end Reader

def Tree.ofText (text : List Char) : Except ReadError Tree := do
  let t ← Reader.start.run text
  if t.depth ≤ nestingLimit then return t else throw .nestedTooDeep

end PatternAutomata.Pattern
