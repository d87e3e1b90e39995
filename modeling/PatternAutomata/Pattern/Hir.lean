import PatternAutomata.CharSet.Basic

/-!
# What a parser makes of a pattern

A parser gives back a pattern in an intermediate form of its own: no flags and no names are left in
it, texts are held as their bytes, and a class holds either characters or bytes. Which form a
pattern gets is the business of the parser.
-/
namespace PatternAutomata.Pattern

/-- The places of a text at which words begin, end or do neither. -/
inductive WordEdge where
  | boundary
  | notBoundary
  | start
  | finish
  | startHalf
  | finishHalf
  deriving DecidableEq

/-- The places of a text that a pattern can ask for. -/
inductive Look where
  | start
  | finish
  | lineStart (crlf : Bool)
  | lineEnd (crlf : Bool)
  | word (edge : WordEdge) (unicode : Bool)
  deriving DecidableEq

def Look.name : Look → String
  | start => "Start"
  | finish => "End"
  | lineStart crlf => if crlf then "StartCRLF" else "StartLF"
  | lineEnd crlf => if crlf then "EndCRLF" else "EndLF"
  | word edge unicode =>
    let alphabet := if unicode then "Unicode" else "Ascii"
    match edge with
    | .boundary => "Word" ++ alphabet
    | .notBoundary => "Word" ++ alphabet ++ "Negate"
    | .start => "WordStart" ++ alphabet
    | .finish => "WordEnd" ++ alphabet
    | .startHalf => "WordStartHalf" ++ alphabet
    | .finishHalf => "WordEndHalf" ++ alphabet

/-- A nonempty run of bytes, both ends included. -/
structure ByteRange where
  lo : UInt8
  hi : UInt8
  lo_le_hi : lo ≤ hi
  deriving DecidableEq

/-- A class of bytes, and the words in which the parser tells which one it is. -/
structure ByteClass where
  ranges : List ByteRange
  shown : String
  deriving DecidableEq

inductive Hir where
  | empty
  /-- The text with these bytes, if it is one. -/
  | literal (bytes : ByteArray)
  | charClass (ranges : List Interval)
  | byteClass (c : ByteClass)
  | look (l : Look)
  | repetition (body : Hir) (min : Nat) (max : Option Nat) (greedy : Bool)
  | capture (index : Nat) (name : Option (List Char)) (body : Hir)
  | concat (items : List Hir)
  | alternation (branches : List Hir)

end PatternAutomata.Pattern
