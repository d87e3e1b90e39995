import PatternAutomata.Pattern.Error
import PatternAutomata.Pattern.Normal
import PatternAutomata.Unicode.Names

/-!
# The meaning of patterns

Flags are applied from the place where they are set to the end of the group, names of properties
are looked up, and the parts are put together as a normal pattern. A pattern must match valid text
only, so without Unicode no set may reach beyond ASCII.
-/
namespace PatternAutomata.Pattern

/-- The values of the flags that have a bearing on the meaning of a pattern. -/
structure Flags where
  caseInsensitive : Bool
  multiLine : Bool
  dotMatchesNewline : Bool
  swapGreed : Bool
  unicode : Bool
  crlf : Bool

namespace Flags

def set (f : Flags) : Flag × Bool → Flags
  | (.caseInsensitive, b) => { f with caseInsensitive := b }
  | (.multiLine, b) => { f with multiLine := b }
  | (.dotMatchesNewline, b) => { f with dotMatchesNewline := b }
  | (.swapGreed, b) => { f with swapGreed := b }
  | (.unicode, b) => { f with unicode := b }
  | (.crlf, b) => { f with crlf := b }
  | (.spaced, _) => f

def apply (f : Flags) (changes : FlagChanges) : Flags := changes.foldl set f

/-- The class with the case variants that the flags ask for. -/
def fold (f : Flags) (r : Ranges) : Ranges :=
  if f.caseInsensitive then
    r.withChars (if f.unicode then r.chars.variants else r.chars.asciiVariants)
  else r

/-- The class or, if it is negated, what it leaves out. -/
def negate (f : Flags) (negated : Bool) (r : Ranges) : Except ReadError Ranges :=
  if !negated then .ok r
  else if f.unicode then .ok r.negate
  else .error .invalidUtf8

end Flags

/-- The character of a literal. Without Unicode, two hexadecimal digits beyond ASCII are a byte,
which is no text on its own. -/
def Literal.check (f : Flags) (l : Literal) : Except ReadError Char :=
  if !f.unicode && l.byte && 0x7F < l.char.toNat then .error .invalidUtf8 else .ok l.char

/-- A literal with the case variants that the flags ask for. -/
def Literal.normal (f : Flags) (l : Literal) : Except ReadError Normal := do
  let c ← l.check f
  return .ofRanges (f.fold (.ofChars [c])) !f.unicode

/-- The character of a literal in a class. Without Unicode, a class has ASCII characters only. -/
def Literal.member (f : Flags) (l : Literal) : Except ReadError Char := do
  let c ← l.check f
  if !f.unicode && 0x7F < c.toNat then throw .unicodeNotAllowed else return c

def AsciiClass.chars : AsciiClass → CharSet
  | alnum => CharSet.ofRanges [('0', '9'), ('A', 'Z'), ('a', 'z')]
  | alpha => CharSet.ofRanges [('A', 'Z'), ('a', 'z')]
  | ascii => CharSet.range '\x00' '\x7F'
  | blank => CharSet.ofRanges [('\t', '\t'), (' ', ' ')]
  | cntrl => CharSet.ofRanges [('\x00', '\x1F'), ('\x7F', '\x7F')]
  | digit => CharSet.range '0' '9'
  | graph => CharSet.range '!' '~'
  | lower => CharSet.range 'a' 'z'
  | print => CharSet.range ' ' '~'
  | punct => CharSet.ofRanges [('!', '/'), (':', '@'), ('[', '\x60'), ('\x7B', '~')]
  | space => CharSet.ofRanges [('\t', '\r'), (' ', ' ')]
  | upper => CharSet.range 'A' 'Z'
  | word => CharSet.ofRanges [('0', '9'), ('A', 'Z'), ('_', '_'), ('a', 'z')]
  | xdigit => CharSet.ofRanges [('0', '9'), ('A', 'F'), ('a', 'f')]

/-- The class of a sign, with or without Unicode. -/
def Shorthand.chars (unicode : Bool) : Shorthand → CharSet
  | digit => if unicode then Unicode.digit else AsciiClass.digit.chars
  | space => if unicode then Unicode.whitespace else AsciiClass.space.chars
  | word => if unicode then Unicode.word else AsciiClass.word.chars

def ReadError.ofLookup : Unicode.LookupError → ReadError
  | .unknownProperty => propertyUnknown
  | .unknownValue => propertyValueUnknown

def Property.chars (p : Property) : Except ReadError CharSet :=
  (match p.value with
    | none => Unicode.classOfName p.name
    | some value => Unicode.classOfValue p.name value).mapError ReadError.ofLookup

def ClassOp.apply : ClassOp → Ranges → Ranges → Ranges
  | intersection, r, s => r ∩ s
  | difference, r, s => r \ s
  | symmetricDifference, r, s => r.symmDiff s

namespace ClassTree

mutual

/-- The ranges of a class. Case variants are added before a class is negated. What a class is put
together from is joined, but what is left after a negation or an operation is not. -/
def ranges (f : Flags) : ClassTree → Except ReadError Ranges
  | literal l => return .ofChars [← l.member f]
  | range lo hi => do
    let a ← lo.member f
    let b ← hi.member f
    return .ofSet (.range a b)
  | ascii name negated => f.negate negated (f.fold (.ofSet name.chars))
  | property p =>
    if f.unicode then do f.negate p.negated (f.fold (.ofSet (← p.chars)))
    else .error .unicodeNotAllowed
  | shorthand s negated => f.negate negated (.ofSet (s.chars f.unicode))
  | bracketed body negated => do f.negate negated (f.fold (← ranges f body).joined)
  | union items => return .unions (← rangesAll f items)
  | operation op left right => do
    let r ← ranges f left
    let s ← ranges f right
    return op.apply (f.fold r.joined) (f.fold s.joined)

def rangesAll (f : Flags) : List ClassTree → Except ReadError (List Ranges)
  | [] => return []
  | item :: items => return (← ranges f item) :: (← rangesAll f items)

end

end ClassTree

/-- The characters that a dot stands for. -/
def Flags.dot (f : Flags) : Except ReadError Ranges :=
  if !f.unicode then .error .invalidUtf8
  else if f.dotMatchesNewline then .ok (.ofSet CharSet.any)
  else if f.crlf then .ok (Ranges.ofChars ['\n', '\r']).negate
  else .ok (Ranges.ofChars ['\n']).negate

/-- The place of a text that an assertion asks for. -/
def Assertion.look (f : Flags) : Assertion → Look
  | lineStart => if f.multiLine then .lineStart f.crlf else .start
  | lineEnd => if f.multiLine then .lineEnd f.crlf else .finish
  | textStart => .start
  | textEnd => .finish
  | word edge => .word edge f.unicode

namespace Tree

mutual

/-- The normal pattern of a tree, and the flags that hold after it. -/
def normal (f : Flags) : Tree → Except ReadError (Normal × Flags)
  | empty => return (.empty, f)
  | literal l => return (← l.normal f, f)
  | dot => return (.ofRanges (← f.dot) false, f)
  | assertion a => return (.look (a.look f), f)
  | set c => return (.ofRanges (← c.ranges f) !f.unicode, f)
  | flags changes => return (.empty, f.apply changes)
  | repetition body min max greedy => do
    let (p, f) ← normal f body
    return (p.repeated min max (greedy != f.swapGreed), f)
  | group (.plain changes) body => do
    let (p, _) ← normal (f.apply changes) body
    return (p, f)
  | group (.capture index name) body => do
    let (p, _) ← normal f body
    return (.capture index name p, f)
  | alternatives branches => do
    let (ps, f) ← normalAll f branches
    return (.anyOf ps, f)
  | sequence items => do
    let (ps, f) ← normalAll f items
    return (.concat ps, f)

def normalAll (f : Flags) : List Tree → Except ReadError (List Normal × Flags)
  | [] => return ([], f)
  | t :: ts => do
    let (p, f) ← normal f t
    let (ps, f) ← normalAll f ts
    return (p :: ps, f)

end

end Tree

end PatternAutomata.Pattern
