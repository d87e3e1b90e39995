import PatternAutomata.Expr.Basic
import PatternAutomata.Pattern.Hir
import PatternAutomata.Text.Quoted

/-!
# Expressions from patterns

A pattern is read by a parser that is given from outside, and what the parser makes of it is turned
into an expression. Groups and laziness leave no trace in the expression. A pattern that asks for a
place in the text has no expression, and neither has one that speaks of bytes which are no text.
The classes with names of their own are what the parser reads their notations as.
-/
namespace PatternAutomata

variable {Fault : Type}

namespace Pattern

/-- The flags that hold at the start of a pattern. -/
structure Options where
  unicode : Bool := true
  caseInsensitive : Bool := false

/-- What reads patterns, and tells in a way of its own why it refuses one. -/
structure Parser (Fault : Type) where
  parse : Options → String → Except Fault Hir

/-- What no expression stands for. -/
inductive Unsupported where
  | look (l : Look)
  /-- The bytes of a literal are no text. -/
  | bytes
  | byteClass (c : ByteClass)
  /-- The name stands for no class of more than one character. -/
  | name (name : String)
  deriving DecidableEq

def Unsupported.message : Unsupported → String
  | look l => "look-around assertion " ++ l.name
  | bytes => "literal is not valid UTF-8"
  | byteClass c => "byte class beyond ASCII: " ++ c.shown
  | name n => "unicode class " ++ quoteText n

/-- Why a pattern has no expression. -/
inductive PatternError (Fault : Type) where
  | unreadable (fault : Fault)
  | unsupported (what : Unsupported)
  deriving DecidableEq

/-- The sentence for an error, given those for the faults that the parser finds. -/
def PatternError.message (tell : Fault → String) : PatternError Fault → String
  | unreadable fault => tell fault
  | unsupported what => "unsupported syntax: " ++ what.message

namespace Hir

mutual

/-- The expression for what a parser gives back. -/
def toExpr : Hir → Except Unsupported Expr
  | empty => return .literal []
  | literal bytes =>
    match String.fromUTF8? bytes with
    | some text => return .literal text.toList
    | none => throw .bytes
  | charClass ranges => return .ofSet (.ofRanges (ranges.map fun r => (r.lo, r.hi)))
  | byteClass c =>
    if c.ranges.any fun r => 0x7F < r.hi then throw (.byteClass c)
    else return .ofSet (.ofRanges (c.ranges.map fun r => (.ofUInt8 r.lo, .ofUInt8 r.hi)))
  | look l => throw (.look l)
  | repetition body min max _ =>
    if max = some 0 then return .literal [] else return .repetition (← toExpr body) min max
  | capture _ _ body => toExpr body
  | concat items => return .sequence (← toExprs items)
  | alternation branches => return .alternatives (← toExprs branches)

def toExprs : List Hir → Except Unsupported (List Expr)
  | [] => return []
  | h :: hs => return (← toExpr h) :: (← toExprs hs)

end

end Hir

end Pattern

open Pattern

def Expr.parse (P : Parser Fault) (text : String) (options : Options := {}) :
    Except (PatternError Fault) Expr := do
  let h ← (P.parse options text).mapError .unreadable
  h.toExpr.mapError .unsupported

/-- A name between the braces of `\p`. -/
def braced (name : String) : String := "\\p\x7b" ++ name ++ "\x7d"

namespace CharSet

/-- The characters that a name stands for between the braces of `\p`, provided that the parser
gives them back as a class of characters. -/
def ofName (P : Parser Fault) (name : String) : Except (PatternError Fault) CharSet := do
  match ← (P.parse {} (braced name)).mapError .unreadable with
  | .charClass ranges => return .ofRanges (ranges.map fun r => (r.lo, r.hi))
  | _ => throw (.unsupported (.name name))

/-- The characters of a pattern that is nothing but a class. -/
def ofPattern (P : Parser Fault) (pattern : String) : CharSet :=
  match P.parse {} pattern with
  | .ok (.charClass ranges) => .ofRanges (ranges.map fun r => (r.lo, r.hi))
  | _ => ∅

def digit (P : Parser Fault) : CharSet := ofPattern P "\\d"

def word (P : Parser Fault) : CharSet := ofPattern P "\\w"

def whitespace (P : Parser Fault) : CharSet := ofPattern P "\\s"

def letter (P : Parser Fault) : CharSet := ofPattern P "\\pL"

def letterOrDigit (P : Parser Fault) : CharSet := ofPattern P "[\\pL\\p\x7bNd\x7d]"

def number (P : Parser Fault) : CharSet := ofPattern P "\\pN"

def control (P : Parser Fault) : CharSet := ofPattern P "\\p\x7bCc\x7d"

end CharSet

namespace Expr

/-- One of the characters that a name stands for, written by that name. -/
def ofName (P : Parser Fault) (name : String) : Except (PatternError Fault) Expr :=
  return named (braced name) (← CharSet.ofName P name)

def digit (P : Parser Fault) : Expr := named "\\d" (.digit P)

def notDigit (P : Parser Fault) : Expr := named "\\D" (CharSet.digit P).negate

def letter (P : Parser Fault) : Expr := named "\\pL" (.letter P)

def letterOrDigit (P : Parser Fault) : Expr := named "[\\pL\\p\x7bNd\x7d]" (.letterOrDigit P)

def number (P : Parser Fault) : Expr := named "\\pN" (.number P)

def control (P : Parser Fault) : Expr := named "\\p\x7bCc\x7d" (.control P)

def word (P : Parser Fault) : Expr := named "\\w" (.word P)

def notWord (P : Parser Fault) : Expr := named "\\W" (CharSet.word P).negate

def whitespace (P : Parser Fault) : Expr := named "\\s" (.whitespace P)

def notWhitespace (P : Parser Fault) : Expr := named "\\S" (CharSet.whitespace P).negate

end Expr

end PatternAutomata
