import PatternAutomata.Automaton.Graph

/-!
# Nested automata

The automata that checks run are again automata, with checks of their own. Two of them are the same
if they are equal in all parts; the tags keep automata apart that were made independently.
-/
namespace PatternAutomata

inductive Nested where
  | of (automaton : Graph Nested)

abbrev Automaton := Graph Nested

namespace Nested

def automaton : Nested → Automaton
  | of g => g

mutual

/-- Decides whether two nested automata are equal. Parts that both of them share need no look. -/
def decideNested : (a b : Nested) → Decidable (a = b)
  | of g, of h =>
    match decideGraph g h with
    | isTrue e => isTrue (e ▸ rfl)
    | isFalse n => isFalse (mt (fun e => by injection e) n)

def decideGraph (g h : Graph Nested) : Decidable (g = h) :=
  withPtrEqDecEq g h fun _ =>
    match g, h with
    | ⟨t, ss, ts, i⟩, ⟨u, rs, us, j⟩ =>
      if e : t = u ∧ ss = rs ∧ i = j then
        match decideTransitions ts us with
        | isTrue k => isTrue (by simp [e, k])
        | isFalse n => isFalse (by simp [n])
      else isFalse (by grind)

def decideTransitions : (ts us : Array (Transition Nested)) → Decidable (ts = us)
  | ⟨ts⟩, ⟨us⟩ =>
    match decideList ts us with
    | isTrue k => isTrue (by simp [k])
    | isFalse n => isFalse (by simp [n])

def decideList : (ts us : List (Transition Nested)) → Decidable (ts = us)
  | [], [] => isTrue rfl
  | [], _ :: _ => isFalse (by simp)
  | _ :: _, [] => isFalse (by simp)
  | t :: ts, u :: us =>
    match decideTransition t u with
    | isTrue e =>
      match decideList ts us with
      | isTrue k => isTrue (by simp [e, k])
      | isFalse n => isFalse (by simp [n])
    | isFalse n => isFalse (by simp [n])

def decideTransition : (t u : Transition Nested) → Decidable (t = u)
  | ⟨e, b⟩, ⟨f, c⟩ =>
    match decideEdge e f with
    | isTrue k => if h : b = c then isTrue (by simp [h, k]) else isFalse (by simp [h])
    | isFalse n => isFalse (by simp [n])

def decideEdge : (e f : Edge Nested) → Decidable (e = f)
  | ⟨s, t, c⟩, ⟨u, v, d⟩ =>
    match decideCondition c d with
    | isTrue k => if h : s = u ∧ t = v then isTrue (by simp [h, k]) else isFalse (by grind)
    | isFalse n => isFalse (by simp [n])

def decideCondition : (c d : Condition Nested) → Decidable (c = d)
  | .char a, .char b => if h : a = b then isTrue (by simp [h]) else isFalse (by simp [h])
  | .set s, .set t => if h : s = t then isTrue (by simp [h]) else isFalse (by simp [h])
  | .sigma, .sigma => isTrue rfl
  | .check n l b, .check m k c =>
    if h : l = k ∧ b = c then
      match decideNested n m with
      | isTrue e => isTrue (by simp [h, e])
      | isFalse e => isFalse (by simp [e])
    else isFalse (by grind)
  | .char _, .set _ | .char _, .sigma | .char _, .check .. => isFalse (by simp)
  | .set _, .char _ | .set _, .sigma | .set _, .check .. => isFalse (by simp)
  | .sigma, .char _ | .sigma, .set _ | .sigma, .check .. => isFalse (by simp)
  | .check .., .char _ | .check .., .set _ | .check .., .sigma => isFalse (by simp)

end

instance : DecidableEq Nested := decideNested

instance : Hashable Nested := ⟨fun n => hash n.automaton.tag⟩

end Nested

end PatternAutomata
