import PatternAutomata.Automaton.Marks
import PatternAutomata.Search.Step

/-!
# Search along a single way

In a deterministic automaton at most one transition applies at a time, and the search follows it.
It ends where none applies, or where it would come back to a state without having consumed
anything.
-/
namespace PatternAutomata.Graph

/-- The only transition among the given ones that applies, by its target and the place it leads
to. `taken` is the one found so far. -/
def choose (probe : Probe ν) (state : Nat) (p : Place) (taken : Option (Nat × Place)) :
    List (Transition ν) → Except SearchError (Option (Nat × Place))
  | [] => .ok taken
  | t :: rest =>
    match t.condition.step probe p with
    | .error e => .error e
    | .ok none => choose probe state p taken rest
    | .ok (some q) =>
      match taken with
      | some _ => .error (.ambiguous state p.pos)
      | none => choose probe state p (some (t.target, q)) rest

theorem place_of_choose {probe : Probe ν} {state next : Nat} {p q : Place}
    {taken : Option (Nat × Place)} {ts : List (Transition ν)}
    (h : choose probe state p taken ts = .ok (some (next, q))) :
    taken = some (next, q) ∨ q = p ∨ ∃ x, p.rest = x :: q.rest ∧ q.pos = p.pos + 1 := by
  induction ts generalizing taken with
  | nil => exact .inl (Except.ok.inj h)
  | cons t rest ih =>
    simp only [choose] at h
    split at h
    · cases h
    · exact ih h
    · next r hr =>
      split at h
      · cases h
      · rcases ih h with e | k
        · cases e
          exact .inr (Condition.place_of_step hr)
        · exact .inr k

/-- Follows the transitions from a state. The states entered since the last consumed character are
marked. -/
def walkFrom (g : Graph ν) (probe : Probe ν) (earliest : Bool) (best : Option Nat)
    (seen : Marks g.states.size) (s : Nat) (p : Place) : Except SearchError (Option Nat) :=
  let best := if g.isAccepting s then some p.pos else best
  if earliest && g.isAccepting s then .ok best
  else
    match _k : choose probe s p none (g.outgoing s) with
    | .error e => .error e
    | .ok none => .ok best
    | .ok (some (next, q)) =>
      if _h : p.pos < q.pos then
        let fresh := Marks.empty g.states.size
        g.walkFrom probe earliest best ((fresh.mark? next).getD fresh) next q
      else
        match _h : seen.mark? next with
        | none => .ok best
        | some seen' => g.walkFrom probe earliest best seen' next p
termination_by (p.rest.length, seen.free)
decreasing_by
  · refine Prod.Lex.left _ _ ?_
    rcases place_of_choose _k with e | rfl | ⟨x, hx, _⟩
    · cases e
    · exact absurd _h (Nat.lt_irrefl _)
    · simp [hx]
  · exact Prod.Lex.right _ (Marks.free_lt_of_mark? _h)

/-- How many characters of a window the automaton consumes, along a single way. -/
def walk (g : Graph ν) (probe : Probe ν) (earliest : Bool) (window : List Char) :
    Except SearchError (Option Nat) :=
  match g.initial with
  | none => .error .missingInitialState
  | some s =>
    let fresh := Marks.empty g.states.size
    g.walkFrom probe earliest none ((fresh.mark? s).getD fresh) s ⟨0, window⟩

end PatternAutomata.Graph
