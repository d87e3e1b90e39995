import PatternAutomata.Proofs.Configurations
import Mathlib.Data.List.ProdSigma

/-!
# Searches as machines

A search can be carried out by a machine that goes from one byte offset of the text to another and
reads a character by cutting the text there. Two such machines are given, one that backtracks and
one that follows a single way. They keep a record of the configurations they enter, and of the
transitions that are tried from them. Cutting the text at an offset that is out of range or inside a
character is a fault, and so is not to come to an end within a number of steps (`Graph.execute`).
-/
namespace PatternAutomata

/-- How a search by a machine can go wrong. -/
inductive Fault where
  | failed (e : Error)
  /-- The text cannot be cut at the byte offset. -/
  | cut (offset : Nat)
  | unfinished

namespace Input

/-- The rest of the span from a byte offset on, provided that the text can be cut there. -/
def slice (input : Input) (i : Nat) : Except Fault (List Char) :=
  match (input.ahead i).window? with
  | some rest => .ok rest
  | none => .error (.cut i)

/-- The byte offsets of the span that fall between two characters. -/
def boundaries (input : Input) : List Nat :=
  (List.range (input.span.stop + 1)).filter fun i =>
    input.span.start ≤ i && (input.ahead i).isValid

end Input

/-- A way to run nested automata. -/
abbrev Runner := Nested → Mode → Input → Except Fault (Option Match)

namespace Condition

/-- The width of the character at a byte offset, if it passes a test. -/
def read (input : Input) (i : Nat) (test : Char → Bool) : Except Fault (Option Nat) := do
  let rest ← input.slice i
  return (rest.head?.filter test).map Char.utf8Size

/-- How many bytes a condition consumes at a byte offset, if it holds there. -/
def advance (run : Runner) (input : Input) (i : Nat) : Condition Nested → Except Fault (Option Nat)
  | char c => read input i (· = c)
  | set s => read input i s.contains
  | sigma => .error (.failed .sigmaTransition)
  | check nested mode negated => do
    let found ← run nested mode (input.ahead i)
    return if found.isSome != negated then some 0 else none

end Condition

/-- What a machine comes to: the byte offset at which the match ends, if there is one. -/
abbrev Outcome := Except Fault (Option Nat)

section
variable {σ : Type} (step : σ → σ) (outcome : σ → Option Outcome)

/-- Takes up to `n` steps, as long as there is no outcome. -/
def drive : Nat → σ → Outcome
  | 0, m => (outcome m).getD (.error .unfinished)
  | n + 1, m => (outcome m).getD (drive n (step m))

/-- A machine takes a number of steps from one state to another, without an outcome before. -/
inductive Steps (start : σ) : Nat → σ → Prop where
  | refl : Steps start 0 start
  | tail {n m} (steps : Steps start n m) (going : outcome m = none) : Steps start (n + 1) (step m)

end

/-- A configuration to come back to, with the number of the transition to be tried next. -/
structure Checkpoint where
  state : Nat
  offset : Nat
  next : Nat

def Checkpoint.config (c : Checkpoint) : Nat × Nat := (c.state, c.offset)

/-- A machine that backtracks. It records the configurations it has entered, and which transitions
it has tried from them, by their numbers among those that leave the closure of the state. -/
structure Backtracker where
  visited : List (Nat × Nat)
  tried : List ((Nat × Nat) × Nat)
  stack : List Checkpoint
  best : Option Nat
  outcome : Option Outcome

/-- A machine that follows a single way. It records the configurations it has entered. -/
structure Walker where
  trail : List (Nat × Nat)
  state : Nat
  offset : Nat
  /-- The states entered since the last consumed character. -/
  seen : List Nat
  best : Option Nat
  outcome : Option Outcome

section
variable (run : Runner) (g : Automaton) (input : Input)

namespace Backtracker

/-- Whether a search for the earliest end has no use for an offset. -/
def isLate (m : Backtracker) (i : Nat) : Bool := input.earliest && m.best.any (· ≤ i)

/-- Enters a state at an offset, unless that is of no use. -/
def enter (m : Backtracker) (s i : Nat) : Backtracker :=
  if m.isLate input i then m
  else if (s, i) ∈ m.visited then m
  else
    let m := { m with visited := (s, i) :: m.visited }
    if (g.closed s).accepting then
      if input.earliest then
        let m := { m with best := some i }
        if i = input.span.start then { m with outcome := some (.ok m.best) } else m
      else
        let best := Graph.later m.best i
        if i = input.span.stop then { m with best, outcome := some (.ok best) }
        else { m with best, stack := ⟨s, i, 0⟩ :: m.stack }
    else { m with stack := ⟨s, i, 0⟩ :: m.stack }

def start (s : Nat) : Backtracker := enter g input ⟨[], [], [], none, none⟩ s input.span.start

/-- Puts down that the next transition of the checkpoint on top is tried. -/
def tries (m : Backtracker) (top : Checkpoint) (rest : List Checkpoint) : Backtracker :=
  { m with
    tried := (top.config, top.next) :: m.tried
    stack := { top with next := top.next + 1 } :: rest }

/-- Tries the next transition of the checkpoint on top, or gives the checkpoint up. -/
def step (m : Backtracker) : Backtracker :=
  match m.stack with
  | [] => { m with outcome := some (.ok m.best) }
  | top :: rest =>
    if m.isLate input top.offset then { m with stack := rest }
    else
      match (g.closed top.state).leaving[top.next]? with
      | none => { m with stack := rest }
      | some t =>
        let m := m.tries top rest
        match t.condition.advance run input top.offset with
        | .error e => { m with outcome := some (.error e) }
        | .ok none => m
        | .ok (some width) => enter g input m t.target (top.offset + width)

/-- What becomes of the machine that starts in a state `s`, after `n` steps. -/
abbrev After (s n : Nat) (m : Backtracker) : Prop :=
  Steps (step run g input) outcome (start g input s) n m

end Backtracker

namespace Walker

/-- The only transition that applies at an offset, by its target and the bytes it consumes. -/
def pick (s i : Nat) (taken : Option (Nat × Nat)) :
    List (Transition Nested) → Except Fault (Option (Nat × Nat))
  | [] => .ok taken
  | t :: rest => do
    match ← t.condition.advance run input i with
    | none => pick s i taken rest
    | some width =>
      match taken with
      | some _ => .error (.failed (.ambiguous s i))
      | none => pick s i (some (t.target, width)) rest

def start (s : Nat) : Walker := ⟨[], s, input.span.start, [], none, none⟩

/-- Puts down that a configuration is visited. -/
def visit (m : Walker) : Walker :=
  { m with
    trail := (m.state, m.offset) :: m.trail
    seen := m.state :: m.seen
    best := if g.isAccepting m.state then some m.offset else m.best }

/-- Visits a configuration and goes on to the next one. -/
def step (m : Walker) : Walker :=
  let m := m.visit g
  if input.earliest && g.isAccepting m.state then { m with outcome := some (.ok m.best) }
  else
    match pick run input m.state m.offset none (g.outgoing m.state) with
    | .error e => { m with outcome := some (.error e) }
    | .ok none => { m with outcome := some (.ok m.best) }
    | .ok (some (next, width)) =>
      if width = 0 then
        if next ∈ m.seen then { m with outcome := some (.ok m.best) }
        else { m with state := next }
      else { m with state := next, offset := m.offset + width, seen := [] }

/-- What becomes of the machine that starts in a state `s`, after `n` steps. -/
abbrev After (s n : Nat) (m : Walker) : Prop :=
  Steps (step run g input) outcome (start input s) n m

end Walker

namespace Graph

/-- The configurations that a search can come to. -/
def configurations : List (Nat × Nat) := g.liveStates ×ˢ input.boundaries

/-- A configuration with the number of a transition that can be tried from it, or the number at
which there are no more. -/
def chances : List ((Nat × Nat) × Nat) :=
  (g.configurations input).flatMap fun c =>
    (List.range ((g.closed c.1).leaving.length + 1)).map fun k => (c, k)

/-- What a machine comes to that starts in a state. -/
def outcomeFrom (mode : Mode) (s : Nat) : Outcome :=
  match mode with
  | .nfa => drive (Backtracker.step run g input) Backtracker.outcome
      ((g.chances input).length + 1) (Backtracker.start g input s)
  | _ => drive (Walker.step run g input) Walker.outcome
      (g.configurations input).length (Walker.start input s)

/-- Searches a text with a machine, if the span can be used. -/
def executeWith (mode : Mode) : Except Fault (Option Match) :=
  if input.isValid then
    match g.initial with
    | none => .error (.failed .missingInitialState)
    | some s => (g.outcomeFrom run input mode s).map (Option.map input.upTo)
  else .ok none

end Graph

end

/-- Searches a text with a machine, and with machines for the nested automata of checks, as far as
these are nested less than `depth` deep. -/
def Graph.execute : (depth : Nat) → Automaton → Mode → Input → Except Fault (Option Match)
  | 0, _, _, _ => .error .unfinished
  | depth + 1, g, mode, input =>
    g.executeWith (fun nested => execute depth nested.automaton) input mode

end PatternAutomata
