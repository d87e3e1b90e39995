import PatternAutomata.Text.Quoted
import PatternAutomata.Unicode.Names

/-!
# The notation of characters and sets

A set is written as a class in brackets. Characters that mean something in patterns get a
backslash, and blanks, control characters and characters beyond U+FFFF are written by code point.
-/
namespace PatternAutomata

/-- The characters that stand for themselves in a pattern only after a backslash. -/
def metacharacters : List Char := "\\.+*?()|[]\x7b\x7d^$#&-~".toList

/-- A character as it is written in a pattern, inside or outside brackets. -/
def patternChar (c : Char) : String :=
  if c ∈ Unicode.control ∨ c ∈ Unicode.whitespace ∨ 0xFFFF < c.toNat then
    "\\x\x7b" ++ hexadecimal true c ++ "\x7d"
  else if c ∈ metacharacters then String.ofList ['\\', c]
  else c.toString

/-- An interval as it is written between brackets. -/
def Interval.render (r : Interval) : String :=
  if r.lo = r.hi then patternChar r.lo else patternChar r.lo ++ "-" ++ patternChar r.hi

/-- The class in brackets that a set is written as. -/
def CharSet.render (s : CharSet) : String :=
  if s.isEmpty then "[^\\x\x7b0\x7d-\\x\x7b10FFFF\x7d]"
  else "[" ++ String.join (s.intervals.map Interval.render) ++ "]"

end PatternAutomata
