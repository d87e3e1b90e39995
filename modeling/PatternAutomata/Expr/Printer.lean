import PatternAutomata.CharSet.Printer
import PatternAutomata.Expr.Basic

/-!
# The notation of expressions

An expression is written as a pattern. Parts are grouped only where the notation needs it: the body
of a repetition unless it is an atom, and alternatives inside a sequence.
-/
namespace PatternAutomata.Expr

/-- Whether a repetition sign after the notation of the expression applies to all of it. -/
def isAtom : Expr → Bool
  | charClass _ => true
  | literal text => text.length == 1
  | lookahead _ _ => true
  | _ => false

def group (text : String) : String := "(?:" ++ text ++ ")"

def bounds (min : Nat) (max : Option Nat) : String :=
  match min, max with
  | 0, none => "*"
  | 1, none => "+"
  | 0, some 1 => "?"
  | min, none => "\x7b" ++ toString min ++ ",\x7d"
  | min, some max =>
    if min = max then "\x7b" ++ toString min ++ "\x7d"
    else "\x7b" ++ toString min ++ "," ++ toString max ++ "\x7d"

mutual

def render : Expr → String
  | charClass c => c.label.getD c.chars.render
  | literal [] => group ""
  | literal text => String.join (text.map patternChar)
  | sequence items => renderSequence items
  | alternatives items => "|".intercalate (renderAll items)
  | repetition body min max =>
    (if body.isAtom then render body else group (render body)) ++ bounds min max
  | lookahead body negated => (if negated then "(?!" else "(?=") ++ render body ++ ")"

/-- The items of a sequence in a row, with alternatives in groups. -/
def renderSequence : List Expr → String
  | [] => ""
  | alternatives items :: rest =>
    group ("|".intercalate (renderAll items)) ++ renderSequence rest
  | item :: rest => render item ++ renderSequence rest

def renderAll : List Expr → List String
  | [] => []
  | item :: rest => render item :: renderAll rest

end

end PatternAutomata.Expr
