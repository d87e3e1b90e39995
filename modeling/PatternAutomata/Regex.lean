import PatternAutomata.Construction.Compiled
import PatternAutomata.Expr.Parser
import PatternAutomata.Search.Find

/-!
# Regular expressions

A pattern or an expression, compiled for one mode and ready to be searched for at the start of
texts.
-/
namespace PatternAutomata

variable {Fault : Type}

/-- Why there is no regular expression for a pattern. -/
inductive RegexError (Fault : Type) where
  | pattern (e : Pattern.PatternError Fault)
  | automaton (e : Error)

structure Regex where
  automaton : Automaton
  mode : Mode

namespace Regex

structure Config extends Pattern.Options where
  mode : Mode := .nfa

def ofExpr (e : Expr) (mode : Mode) : Except Error Regex :=
  return ⟨← Graph.compile 0 mode e, mode⟩

def ofPattern (P : Pattern.Parser Fault) (text : String) (config : Config := {}) :
    Except (RegexError Fault) Regex := do
  let e ← (Expr.parse P text config.toOptions).mapError .pattern
  (ofExpr e config.mode).mapError .automaton

/-- Whether all of a text matches. -/
def matches? (r : Regex) (text : String) : Except Error Bool := r.automaton.matches? r.mode text

/-- The longest match at the start of the span, or the shortest one if the input asks for it. -/
def find? (r : Regex) (input : Input) : Except Error (Option Match) :=
  r.automaton.find? r.mode input

end Regex

end PatternAutomata
