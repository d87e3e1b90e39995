import PatternAutomata.Pattern.Scanner
import PatternAutomata.Pattern.Tree

/-!
# Escapes

What a backslash and the characters after it stand for: a character, a class or a place in the
text. An escape means the same inside and outside brackets, although not every one is allowed there.
-/
namespace PatternAutomata.Pattern

def isHexDigit (c : Char) : Bool := (Unicode.hexDigit? c).isSome

/-- The character with the given hexadecimal code point. -/
def hexCharacter (byte : Bool) (digits : List Char) : Except ReadError Literal :=
  let n := Unicode.hexValue digits
  if n.isValidChar then .ok ⟨Char.ofNat n, byte⟩ else .error .hexNotScalar

def hexDigits (spaced : Bool) : Nat → Scanner (List Char)
  | 0 => return []
  | n + 1 => do
    let c ← .next .escapeEnds
    if !isHexDigit c then .fail .hexDigit
    else
      .skip spaced
      return c :: (← hexDigits spaced n)

/-- A character by code point, after the letter that says how many digits there are. -/
def codePoint (spaced : Bool) (count : Nat) : Scanner Literal := do
  .skip spaced
  .needMore .escapeEnds
  if ← .accept "\x7b" then
    .skip spaced
    let digits ← .takeWhile spaced (· != '}')
    if !digits.all isHexDigit then .fail .hexDigit
    else if !(← .accept "\x7d") then .fail .escapeEnds
    else if digits.isEmpty then .fail .hexEmpty
    else .ofExcept (hexCharacter false digits)
  else .ofExcept (hexCharacter (count == 2) (← hexDigits spaced count))

def splitAtFirst (separator : List Char) : List Char → Option (List Char × List Char)
  | [] => none
  | c :: cs =>
    if separator.isPrefixOf (c :: cs) then some ([], (c :: cs).drop separator.length)
    else (splitAtFirst separator cs).map fun (before, after) => (c :: before, after)

/-- The property that a name in braces stands for. -/
def Property.ofText (text : List Char) (negated : Bool) : Property :=
  match splitAtFirst ['!', '='] text with
  | some (name, value) => ⟨name, some value, !negated⟩
  | none =>
    match splitAtFirst [':'] text, splitAtFirst ['='] text with
    | some (name, value), _ => ⟨name, some value, negated⟩
    | none, some (name, value) => ⟨name, some value, negated⟩
    | none, none => ⟨text, none, negated⟩

/-- A property, after the letter that asks for it. -/
def property (spaced negated : Bool) : Scanner Property := do
  .skip spaced
  .needMore .escapeEnds
  if ← .accept "\x7b" then
    .skip spaced
    let text ← .takeWhile spaced (· != '}')
    if ← .accept "\x7d" then return Property.ofText text negated else .fail .escapeEnds
  else
    let c ← .next .escapeEnds
    if c = '\\' then .fail .propertyInvalid else return ⟨[c], none, negated⟩

def isEdgeNameChar (c : Char) : Bool := c.isAlpha || c == '-'

def WordEdge.ofName? (name : List Char) : Option WordEdge :=
  match String.ofList name with
  | "start" => some .start
  | "end" => some .finish
  | "start-half" => some .startHalf
  | "end-half" => some .finishHalf
  | _ => none

/-- The word edge that `\b` asks for. A brace belongs to it if a name follows, and otherwise to a
repetition. -/
def wordEdge (spaced : Bool) : Scanner WordEdge := do
  match ← .ahead with
  | '{' :: rest =>
    match nextPart spaced rest with
    | [] => .fail .boundaryEnds
    | c :: _ =>
      if isEdgeNameChar c then
        .drop 1
        .skip spaced
        let name ← .takeWhile spaced isEdgeNameChar
        if ← .accept "\x7d" then
          match WordEdge.ofName? name with
          | some edge => return edge
          | none => .fail .boundaryUnknown
        else .fail .boundaryUnclosed
      else return .boundary
  | _ => return .boundary

/-- Whether a backslash makes a character stand for itself. -/
def isEscapable (c : Char) : Bool :=
  c.toNat < 0x80 && !c.isAlphanum && c != '<' && c != '>'

/-- What a letter or an angle bracket after a backslash stands for, if nothing follows that belongs
to it. -/
def plainEscape? : Char → Option Tree
  | 'd' => some (.set (.shorthand .digit false))
  | 's' => some (.set (.shorthand .space false))
  | 'w' => some (.set (.shorthand .word false))
  | 'D' => some (.set (.shorthand .digit true))
  | 'S' => some (.set (.shorthand .space true))
  | 'W' => some (.set (.shorthand .word true))
  | 'a' => some (.literal ⟨'\x07', false⟩)
  | 'f' => some (.literal ⟨'\x0C', false⟩)
  | 't' => some (.literal ⟨'\t', false⟩)
  | 'n' => some (.literal ⟨'\n', false⟩)
  | 'r' => some (.literal ⟨'\r', false⟩)
  | 'v' => some (.literal ⟨'\x0B', false⟩)
  | 'A' => some (.assertion .textStart)
  | 'z' => some (.assertion .textEnd)
  | 'B' => some (.assertion (.word .notBoundary))
  | '<' => some (.assertion (.word .start))
  | '>' => some (.assertion (.word .finish))
  | _ => none

/-- An escape, after its backslash. -/
def escape (spaced : Bool) : Scanner Tree := do
  let c ← .next .escapeEnds
  if c.isDigit then .fail .backreference
  else if isEscapable c then return .literal ⟨c, false⟩
  else
    match c with
    | 'x' => return .literal (← codePoint spaced 2)
    | 'u' => return .literal (← codePoint spaced 4)
    | 'U' => return .literal (← codePoint spaced 8)
    | 'p' => return .set (.property (← property spaced false))
    | 'P' => return .set (.property (← property spaced true))
    | 'b' => return .assertion (.word (← wordEdge spaced))
    | _ =>
      match plainEscape? c with
      | some part => return part
      | none => .fail .escapeUnknown

end PatternAutomata.Pattern
