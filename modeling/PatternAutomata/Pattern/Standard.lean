import PatternAutomata.CharSet.Printer
import PatternAutomata.Expr.Parser
import PatternAutomata.Pattern.Meaning
import PatternAutomata.Pattern.Reader

/-!
# The standard parser

The parser that programs use: a pattern is read as a tree, brought into normal form and given back
with its texts as bytes.
-/
namespace PatternAutomata.Pattern

def Flags.initial (o : Options) : Flags :=
  ⟨o.caseInsensitive, false, false, false, o.unicode, false⟩

def Normal.ofText (f : Flags) (text : String) : Except ReadError Normal := do
  let (p, _) ← (← Tree.ofText text.toList).normal f
  return p

/-- The bytes of the characters of an interval, if each of them has a single byte. -/
def ByteRange.ofInterval? (i : Interval) : Option ByteRange :=
  let lo := i.lo.toUInt8
  let hi := i.hi.toUInt8
  if h : i.hi.toNat < 0x80 ∧ lo ≤ hi then some ⟨lo, hi, h.2⟩ else none

namespace Normal

mutual

/-- What the parser gives back. Only characters of a single byte can be meant as bytes. -/
def toHir : Normal → Hir
  | empty => .empty
  | literal text => .literal (String.ofList text).toUTF8
  | set r false => .charClass r.row
  | set r true =>
    match r.row.mapM ByteRange.ofInterval? with
    | some ranges => .byteClass ⟨ranges, r.chars.render⟩
    | none => .charClass r.row
  | look l => .look l
  | repetition body min max greedy => .repetition (toHir body) min max greedy
  | capture index name body => .capture index name (toHir body)
  | sequence items => .concat (toHirs items)
  | alternatives branches => .alternation (toHirs branches)

def toHirs : List Normal → List Hir
  | [] => []
  | p :: ps => toHir p :: toHirs ps

end

end Normal

def Parser.standard : Parser ReadError where
  parse o text := return (← Normal.ofText (.initial o) text).toHir

end PatternAutomata.Pattern
