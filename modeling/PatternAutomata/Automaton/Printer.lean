import PatternAutomata.Automaton.Nested
import PatternAutomata.CharSet.Printer
import PatternAutomata.Error

/-!
# The notation of transitions
-/
namespace PatternAutomata

namespace Condition

/-- A condition as it is written on a transition. A check shows the number of states of its nested
automaton. -/
def render : Condition Nested → String
  | char c => quoteChar c
  | set s => s.render
  | sigma => "ε"
  | check nested _ negated =>
    (if negated then "!" else "&") ++ "<" ++ toString nested.automaton.stateCount ++ " states>"

end Condition

/-- A transition with its number, its ends and its condition. A deleted one is crossed out. -/
def Transition.render (number : Nat) (t : Transition Nested) : String :=
  (if t.deleted then "X" else "") ++ Error.transitionName number ++ "[" ++
    Error.stateName t.source ++ " --" ++ t.condition.render ++ "--> " ++
    Error.stateName t.target ++ "]"

end PatternAutomata
