import PatternAutomata.Proofs.Find

/-!
# Walks and backtracking agree

Where a walk comes to an end, backtracking only comes to configurations on the way of the walk: no
sigma transition leaves them, and the walk has tried all their transitions without a fault. So the
search by backtracking does not fail either (`explore_ok`), and it finds what the walk finds
(`backtrack_of_walk`), also where the walk is cut because it would come back to a state without
having consumed anything.
-/
namespace PatternAutomata

namespace Graph

variable {ν : Type} {g : Graph ν} {probe : Probe ν} {earliest : Bool} {window : List Char}
  {i n : Nat}

/-- A state that no sigma transition leaves is alone in its closure. -/
theorem eq_of_mem_closure {s m : Nat} (free : ∀ t ∈ g.outgoing s, t.condition.isSigma = false)
    (h : m ∈ g.closure s) : m = s := by
  obtain ⟨r, hr, reach⟩ := sigmaReaches_of_mem h
  cases List.mem_singleton.mp hr
  rcases Relation.ReflTransGen.cases_head reach with same | ⟨k, hk, _⟩
  · exact same.symm
  · obtain ⟨t, ht, sigma, _⟩ := mem_sigmaTargets.mp hk
    cases (free t ht).symm.trans sigma

/-- The walk from the state `i` comes to be in a state at a place. -/
def OnWay (g : Graph ν) (probe : Probe ν) (earliest : Bool) (window : List Char) (i s : Nat)
    (p : Place) : Prop :=
  Place.At window p ∧ Relation.ReflTransGen (g.Advances probe earliest) (i, window) (s, p.rest)

/-- The task is about a configuration that the walk comes to, and only transitions that the walk
has to choose from are tried. -/
def Task.OnWay (g : Graph ν) (probe : Probe ν) (earliest : Bool) (window : List Char) (i : Nat) :
    Task ν → Prop
  | .enter s p => g.OnWay probe earliest window i s p
  | .attempt t p => ∃ s, g.OnWay probe earliest window i s p ∧
      ¬ (earliest = true ∧ g.isAccepting s = true) ∧ t ∈ g.outgoing s

namespace OnWay

variable {s : Nat} {p q : Place} {t : Transition ν}

theorem settles (h : g.OnWay probe earliest window i s p)
    (single : g.Single probe earliest window i)
    (going : ¬ (earliest = true ∧ g.isAccepting s = true)) :
    Settles probe p (g.outgoing s) := by
  have settles := single _ h.2 going
  rwa [h.1.placeOf_eq] at settles

/-- A transition that applies leads on along the way. -/
theorem step (h : g.OnWay probe earliest window i s p)
    (going : ¬ (earliest = true ∧ g.isAccepting s = true)) (ht : t ∈ g.outgoing s)
    (hq : t.condition.step probe p = .ok (some q)) :
    g.OnWay probe earliest window i t.target q :=
  ⟨h.1.step hq, h.2.tail ⟨going, moves_of_step ht hq⟩⟩

/-- What is to be tried after a state is entered are the transitions that the walk has to choose
from. -/
theorem attempts (hg : g.Intact) (hi : g.IsLive i) (h : g.OnWay probe earliest window i s p)
    (single : g.Single probe earliest window i)
    (going : ¬ (earliest = true ∧ (g.closed s).accepting = true)) :
    ∀ task ∈ (g.closed s).leaving.map (Task.attempt · p),
      task.OnWay g probe earliest window i := by
  have live : g.IsLive s := (Advances.runs h.2).isLive hg hi
  have goes : ¬ (earliest = true ∧ g.isAccepting s = true) := by
    rintro ⟨early, accepting⟩
    exact going ⟨early, closed_accepting.mpr ⟨s, (mem_closure hg live).mpr .refl, accepting⟩⟩
  intro task member
  obtain ⟨t, ht, rfl⟩ := List.mem_map.mp member
  obtain ⟨m, hm, out, -⟩ := mem_leaving.mp ht
  cases eq_of_mem_closure (h.settles single goes).free hm
  exact ⟨s, h, goes, out⟩

end OnWay

/-- Backtracking does not fail as long as it stays on the way of a walk that meets no fault. -/
theorem explore_ok (hg : g.Intact) (hi : g.IsLive i) (single : g.Single probe earliest window i)
    (closures : Closures g) {seen : Marks n} {best : Option Nat} {tasks : List (Task ν)}
    (h : ∀ task ∈ tasks, task.OnWay g probe earliest window i) :
    ∃ r, explore closures probe earliest seen best tasks = .ok r := by
  fun_induction explore closures probe earliest seen best tasks with
  | case1 seen best => exact ⟨best, rfl⟩
  | case2 seen best t p tasks _ ih => exact ih (List.forall_mem_cons.mp h).2
  | case3 seen best t p tasks _ e he =>
    obtain ⟨s, way, going, ht⟩ := (List.forall_mem_cons.mp h).1
    obtain ⟨q, hq⟩ := (way.settles single going).1 t ht
    cases he.symm.trans hq
  | case4 seen best t p tasks _ _ ih => exact ih (List.forall_mem_cons.mp h).2
  | case5 seen best t p tasks _ q hq ih =>
    obtain ⟨⟨s, way, going, ht⟩, others⟩ := List.forall_mem_cons.mp h
    exact ih (List.forall_mem_cons.mpr ⟨way.step going ht hq, others⟩)
  | case6 seen best s p tasks _ ih => exact ih (List.forall_mem_cons.mp h).2
  | case7 seen best s p tasks _ _ ih => exact ih (List.forall_mem_cons.mp h).2
  | case8 seen best s p tasks => exact ⟨_, rfl⟩
  | case9 seen best s p tasks _ _ _ _ _ _ _ ih => exact ih (List.forall_mem_cons.mp h).2
  | case10 seen best s p tasks => exact ⟨_, rfl⟩
  | case11 seen best s p tasks _ seen' _ closed attempts _ notEarly _ ih =>
    obtain ⟨way, others⟩ := List.forall_mem_cons.mp h
    refine ih (List.forall_mem_append.mpr ⟨?_, others⟩)
    have first := way.attempts hg hi single fun both => notEarly both.1
    simpa [attempts, closed] using first
  | case12 seen best s p tasks _ seen' _ closed attempts rejecting ih =>
    obtain ⟨way, others⟩ := List.forall_mem_cons.mp h
    refine ih (List.forall_mem_append.mpr ⟨?_, others⟩)
    have first := way.attempts hg hi single fun both => rejecting (by simpa [closed] using both.2)
    simpa [attempts, closed] using first

/-- Backtracking finds what a walk finds that comes to an end. -/
theorem backtrack_of_walk (hg : g.Intact) {r : Option Nat}
    (ok : g.walk probe earliest window = .ok r) : g.backtrack probe earliest window = .ok r := by
  cases initial : g.initial with
  | none =>
    rw [walk, initial] at ok
    cases ok
  | some i =>
    obtain ⟨single, extreme⟩ := walk_spec hg initial ok
    have start : Task.OnWay g probe earliest window i (.enter i ⟨0, window⟩) :=
      ⟨⟨List.suffix_rfl, Nat.zero_add _⟩, .refl⟩
    obtain ⟨r', ok'⟩ : ∃ r', g.backtrack probe earliest window = .ok r' := by
      rw [backtrack, initial]
      exact explore_ok hg (hg.initial_live i initial) single g.closures
        (List.forall_mem_singleton.mpr start)
    rcases backtrack_cases hg initial probe earliest window with ⟨r'', ok'', extreme'⟩ | ⟨failed, -⟩
    · cases extreme'.unique extreme
      exact ok''
    · obtain ⟨e, failed⟩ := failed
      cases failed.symm.trans ok'

/-- A search that succeeds in any mode succeeds by backtracking too, with the same outcome. -/
theorem find?_backtracking {g : Automaton} (hg : g.HasHistory) {mode : Mode} {input : Input}
    {r : Option Match} (ok : g.find? mode input = .ok r) : g.find? .nfa input = .ok r := by
  cases hw : input.window? with
  | none => rw [← ok, find?_of_invalid hw, find?_of_invalid hw]
  | some window =>
    obtain ⟨n, searched, rfl⟩ := search_of_find? hw ok
    refine find?_of_search hw ?_
    have ready : (Nested.ready g).Intact := Nested.ready_eq g ▸ intact_ready hg.intact
    cases mode with
    | nfa => exact searched
    | dfa => exact backtrack_of_walk ready searched
    | minimal => exact backtrack_of_walk ready searched

/-- It accepts everywhere. -/
def everywhere : Automaton :=
  (Graph.empty 0).replay [.addState, .setInitial ⟨0, 0⟩, .setAccepting ⟨0, 0⟩]

/-- Two states that lead to each other by checks that always hold, the second one accepting. -/
def circling : Automaton :=
  (Graph.empty 1).replay [.addState, .addState, .setInitial ⟨1, 0⟩, .setAccepting ⟨1, 1⟩,
    .addTransition ⟨1, 0⟩ ⟨1, 1⟩ (.check (.of everywhere) .dfa false),
    .addTransition ⟨1, 1⟩ ⟨1, 0⟩ (.check (.of everywhere) .dfa false)]

theorem probe_everywhere (u : List Char) : Nested.probe (.of everywhere) .dfa u = .ok true := by
  have walked : (Nested.ready everywhere).walk Nested.Trial.run true u = .ok (some 0) := by
    change walkFrom _ _ _ _ _ 0 _ = _
    rw [walkFrom]
    rfl
  rw [Nested.probe_eq]
  exact congrArg (Except.map Option.isSome) walked

theorem check_circling {s : Nat} {t : Transition Nested} (ht : t ∈ circling.outgoing s) :
    circling.outgoing s = [t] ∧ t.condition = .check (.of everywhere) .dfa false := by
  rcases s with _ | _ | s
  · cases List.mem_singleton.mp ht
    exact ⟨rfl, rfl⟩
  · cases List.mem_singleton.mp ht
    exact ⟨rfl, rfl⟩
  · cases ht

theorem single_circling (window : List Char) : circling.Single Nested.probe false window 0 := by
  intro c _ _
  constructor
  · intro t ht
    refine ⟨some (placeOf window c), ?_⟩
    rw [(check_circling ht).2]
    simp only [Condition.step, probe_everywhere]
    rfl
  · cases out : circling.outgoing c.1 with
    | nil => exact .nil
    | cons t ts =>
      have member : t ∈ circling.outgoing c.1 := out ▸ List.mem_cons_self ..
      rw [← out, (check_circling member).1]
      exact List.pairwise_singleton ..

/-- The checks of `circling` lead nowhere in the text. -/
theorem rest_of_runs_circling {window : List Char} {c : Config}
    (run : circling.Runs Nested.probe (0, window) c) : c.2 = window := by
  induction run with
  | refl => rfl
  | tail _ move ih =>
    obtain ⟨t, ht, _, leads⟩ := move
    rw [(check_circling ht).2] at leads
    exact leads.1.symm.trans ih

theorem isExtreme_circling (window : List Char) :
    IsExtreme false (circling.Accepts Nested.probe window) (some 0) := by
  constructor
  · have move : circling.Moves Nested.probe (0, window) (1, window) :=
      ⟨_, List.mem_singleton_self _, rfl, rfl, probe_everywhere window⟩
    exact accepts_iff.mpr ⟨0, 1, window, rfl, .single move, rfl, Nat.zero_add _⟩
  · intro pos accepts
    obtain ⟨i, s, rest, initial, run, _, len⟩ := accepts_iff.mp accepts
    cases initial
    have same : rest = window := rest_of_runs_circling run
    rw [same] at len
    simp only [Bool.false_eq_true, if_false]
    omega

/-- The walk is cut when it comes back to its first state, after it has accepted in the second. -/
theorem find?_backtracking_circling : circling.HasHistory ∧
    circling.find? .dfa (.ofText "x") = .ok (some ⟨"x", ⟨0, 0⟩⟩) ∧
      circling.find? .nfa (.ofText "x") = .ok (some ⟨"x", ⟨0, 0⟩⟩) := by
  have history : circling.HasHistory := ⟨1, _, rfl⟩
  obtain ⟨n, walked, extreme⟩ := find?_single history.intact rfl (window?_ofText "x")
    (by decide : Mode.dfa ≠ .nfa) (single_circling _)
  cases extreme.unique (isExtreme_circling _)
  exact ⟨history, walked, find?_backtracking history walked⟩

end Graph

end PatternAutomata
