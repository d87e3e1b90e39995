import PatternAutomata.Automaton.Nested
import PatternAutomata.Error
import PatternAutomata.Search.Backtracking
import PatternAutomata.Search.Walk
import PatternAutomata.Text.Span

/-!
# Searching a text

A search is anchored at the start of its span. Checks run their nested automata on what is left of
the window and ask for the earliest end.
-/
namespace PatternAutomata

namespace Graph

/-- How many characters of a window the automaton consumes in a mode. -/
def search (g : Graph ν) (probe : Probe ν) (mode : Mode) (earliest : Bool)
    (window : List Char) : Except SearchError (Option Nat) :=
  match mode with
  | .nfa => g.backtrack probe earliest window
  | .dfa => g.walk probe earliest window
  | .minimal => g.walk probe earliest window

end Graph

namespace Nested

/-- A nested automaton as a search sees it: whether it finds a match at the start of a window. -/
structure Trial where
  run : Mode → List Char → Except SearchError Bool

mutual

/-- Makes a nested automaton ready to be run. The work is put off to the first run. -/
def trial : Nested → Trial
  | of g =>
    let g := Thunk.mk fun _ => ready g
    ⟨fun mode window => do
      let found ← g.get.search Trial.run mode true window
      return found.isSome⟩

/-- Makes the checks of an automaton ready to be run. -/
def ready : Graph Nested → Graph Trial
  | ⟨tag, states, transitions, initial⟩ => ⟨tag, states, readyArray transitions, initial⟩

def readyArray : Array (Transition Nested) → Array (Transition Trial)
  | ⟨ts⟩ => ⟨readyList ts⟩

def readyList : List (Transition Nested) → List (Transition Trial)
  | [] => []
  | t :: ts => readyTransition t :: readyList ts

def readyTransition : Transition Nested → Transition Trial
  | ⟨e, deleted⟩ => ⟨readyEdge e, deleted⟩

def readyEdge : Edge Nested → Edge Trial
  | ⟨source, target, c⟩ => ⟨source, target, readyCondition c⟩

def readyCondition : Condition Nested → Condition Trial
  | .char c => .char c
  | .set s => .set s
  | .sigma => .sigma
  | .check nested mode negated => .check (trial nested) mode negated

end

end Nested

/-- The error with the place given as a byte offset, for a window that starts at `start`. -/
def SearchError.toError (start : Nat) (window : List Char) : SearchError → Error
  | missingInitialState => .missingInitialState
  | sigmaTransition => .sigmaTransition
  | ambiguous state pos => .ambiguous state (start + byteSize (window.take pos))

namespace Graph

/-- Searches a text. A span that cannot be used has no match. -/
def find? (g : Automaton) (mode : Mode) (input : Input) : Except Error (Option Match) :=
  match input.window? with
  | none => .ok none
  | some window =>
    let start := input.span.start
    match (Nested.ready g).search Nested.Trial.run mode input.earliest window with
    | .error e => .error (e.toError start window)
    | .ok none => .ok none
    | .ok (some n) => .ok (some ⟨input.text, ⟨start, start + byteSize (window.take n)⟩⟩)

/-- Whether the automaton can consume all of a text. -/
def matches? (g : Automaton) (mode : Mode) (text : String) : Except Error Bool := do
  let found ← g.find? mode (Input.ofText text)
  return found.any fun m => m.span.stop == text.utf8ByteSize

end Graph

end PatternAutomata
