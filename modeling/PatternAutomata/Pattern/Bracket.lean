import PatternAutomata.Pattern.Escape

/-!
# Classes between brackets

The parts of a class in brackets: its opening, its items, and the names of classes of ASCII
characters. What is nested is left to the reader of whole patterns, which knows what is open.
-/
namespace PatternAutomata.Pattern

def AsciiClass.ofName? (name : List Char) : Option AsciiClass :=
  match String.ofList name with
  | "alnum" => some .alnum
  | "alpha" => some .alpha
  | "ascii" => some .ascii
  | "blank" => some .blank
  | "cntrl" => some .cntrl
  | "digit" => some .digit
  | "graph" => some .graph
  | "lower" => some .lower
  | "print" => some .print
  | "punct" => some .punct
  | "space" => some .space
  | "upper" => some .upper
  | "word" => some .word
  | "xdigit" => some .xdigit
  | _ => none

/-- The class of ASCII characters whose name in colons stands after an opening bracket, and its
length. Anything else there is no fault. -/
def asciiClassAt? (cs : List Char) : Option (ClassTree × Nat) :=
  let named (negated : Bool) (start : Nat) (cs : List Char) : Option (ClassTree × Nat) :=
    let name := cs.takeWhile (· != ':')
    match cs.drop name.length, AsciiClass.ofName? name with
    | ':' :: ']' :: _, some k => some (.ascii k negated, start + name.length + 2)
    | _, _ => none
  match cs with
  | ':' :: '^' :: rest => named true 2 rest
  | ':' :: rest => named false 1 rest
  | _ => none

def asciiClass? : Scanner (Option ClassTree) := do
  match asciiClassAt? (← .ahead) with
  | some (item, n) =>
    .drop n
    return some item
  | none => return none

/-- Whether a class is negated, and its first items, after the opening bracket. A closing bracket
that comes first stands for itself, and so do all hyphens that come first. -/
def bracketStart (spaced : Bool) : Scanner (Bool × List ClassTree) := do
  .skip spaced
  .needMore .classUnclosed
  let negated ← .through spaced "^" .classUnclosed
  let hyphens ← .takeWhile spaced (· == '-')
  .needMore .classUnclosed
  if hyphens.isEmpty then
    if ← .through spaced "]" .classUnclosed then
      return (negated, [.literal ⟨']', false⟩])
    else return (negated, [])
  else return (negated, hyphens.map fun c => .literal ⟨c, false⟩)

/-- The character after a hyphen that decides whether a range is meant. The hash that starts a
comment is skipped, but not the comment. -/
def afterHyphen? (spaced : Bool) (cs : List Char) : Option Char :=
  if spaced then
    match cs.dropWhile isBlank with
    | '#' :: rest => (rest.dropWhile isBlank).head?
    | rest => rest.head?
  else cs.head?

/-- Whether the text ahead makes a range of the item before it. -/
def continuesRange (spaced : Bool) : List Char → Bool
  | '-' :: rest => afterHyphen? spaced rest != some ']' && afterHyphen? spaced rest != some '-'
  | _ => false

/-- A single character or an escape, of which the first character is known. -/
def bracketAtom (spaced : Bool) (c : Char) : Scanner Tree :=
  if c = '\\' then escape spaced else return .literal ⟨c, false⟩

def itemOf : Tree → Except ReadError ClassTree
  | .literal l => .ok (.literal l)
  | .set c => .ok c
  | _ => .error .escapeInClass

def endOf : Tree → Except ReadError Literal
  | .literal l => .ok l
  | _ => .error .rangeBoundary

def rangeOf (first last : Tree) : Except ReadError ClassTree := do
  let lo ← endOf first
  let hi ← endOf last
  if lo.char ≤ hi.char then return .range lo hi else throw .rangeReversed

/-- An item of a class: a character, an escape or a range. Its first character is known. -/
def bracketItem (spaced : Bool) (c : Char) : Scanner ClassTree := do
  let first ← bracketAtom spaced c
  .skip spaced
  .needMore .classUnclosed
  if continuesRange spaced (← .ahead) then
    .drop 1
    .skip spaced
    let last ← bracketAtom spaced (← .next .classUnclosed)
    .ofExcept (rangeOf first last)
  else .ofExcept (itemOf first)

end PatternAutomata.Pattern
