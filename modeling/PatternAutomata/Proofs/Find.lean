import PatternAutomata.Proofs.Mapped
import PatternAutomata.Proofs.Windows

/-!
# What a search of a text finds

A search of a text ends where the automaton accepts in the window. It cannot fail if the nested
automata answer (`find?_nfa`), or if at most one transition applies at a time (`find?_single`).
-/
namespace PatternAutomata

/-- The match that consumes a number of characters of the window. -/
def Input.taken (input : Input) (window : List Char) (n : Nat) : Match :=
  ⟨input.text, ⟨input.span.start, input.span.start + byteSize (window.take n)⟩⟩

namespace Graph

variable {g : Automaton} {mode : Mode} {input : Input} {window : List Char} {i : Nat}

theorem find?_of_invalid (h : input.window? = none) : g.find? mode input = .ok none := by
  unfold find?
  rw [h]

theorem find?_of_search (hw : input.window? = some window) {r : Option Nat}
    (ok : (Nested.ready g).search Nested.Trial.run mode input.earliest window = .ok r) :
    g.find? mode input = .ok (r.map (input.taken window)) := by
  unfold find?
  rw [hw]
  simp only [ok]
  cases r with
  | none => rfl
  | some n => rfl

theorem find?_of_error (hw : input.window? = some window) {e : SearchError}
    (failed : (Nested.ready g).search Nested.Trial.run mode input.earliest window = .error e) :
    g.find? mode input = .error (e.toError input.span.start window) := by
  unfold find?
  rw [hw]
  simp only [failed]

theorem search_of_find? (hw : input.window? = some window) {r : Option Match}
    (ok : g.find? mode input = .ok r) :
    ∃ n, (Nested.ready g).search Nested.Trial.run mode input.earliest window = .ok n ∧
      r = n.map (input.taken window) := by
  cases found : (Nested.ready g).search Nested.Trial.run mode input.earliest window with
  | error e => cases (find?_of_error hw found).symm.trans ok
  | ok n =>
    have same := find?_of_search hw found
    rw [ok] at same
    exact ⟨n, rfl, Except.ok.inj same⟩

/-- The nested automata of an automaton run without error from every place of a span. -/
def NestedSucceed (g : Automaton) (input : Input) : Prop :=
  ∀ t ∈ g.liveTransitions, ∀ nested mode negated, t.1.condition = .check nested mode negated →
    ∀ start, input.span.start ≤ start →
      (Input.mk input.text ⟨start, input.span.stop⟩ true).isValid = true →
        ∃ r, nested.automaton.find? mode ⟨input.text, ⟨start, input.span.stop⟩, true⟩ = .ok r

/-- Nested automata that run without error answer. -/
theorem NestedSucceed.answers (h : g.NestedSucceed input) (hg : g.Intact)
    (hw : input.window? = some window) : g.Answers Nested.probe window := by
  intro s t ht nested mode negated hc u hu
  obtain ⟨n, hn⟩ := hg.mem_liveTransitions ht
  obtain ⟨taken, rfl⟩ := hu
  obtain ⟨text, ⟨start, stop⟩, earliest⟩ := input
  have rest : (Input.mk text ⟨start + byteSize taken, stop⟩ true).window? = some u :=
    window?_suffix hw
  obtain ⟨r, ok⟩ := h _ hn nested mode negated hc (start + byteSize taken) (Nat.le_add_right ..)
    (by simp only [Input.isValid, rest]; rfl)
  obtain ⟨found, searched, -⟩ := search_of_find? rest ok
  refine ⟨found.isSome, ?_⟩
  rw [Nested.probe_eq]
  simp only at searched
  rw [searched]
  rfl

theorem intact_ready (hg : g.Intact) : (g.replace Nested.trial).Intact := hg.replace

/-- A search by backtracking finds the end that is asked for, unless a check fails. -/
theorem find?_nfa_cases (hg : g.Intact) (initial : g.initial = some i)
    (hw : input.window? = some window) :
    (∃ n, g.find? .nfa input = .ok (n.map (input.taken window)) ∧
      IsExtreme input.earliest (g.Accepts Nested.probe window) n) ∨
    (∃ e, g.find? .nfa input = .error e) ∧ g.Falters Nested.probe window i := by
  have ready : (Nested.ready g).search Nested.Trial.run .nfa input.earliest window =
      (g.replace Nested.trial).backtrack Nested.Trial.run input.earliest window := by
    rw [Nested.ready_eq]
    rfl
  rcases backtrack_cases (intact_ready hg) initial Nested.Trial.run input.earliest window with
    ⟨n, ok, extreme⟩ | ⟨⟨e, failed⟩, falters⟩
  · exact .inl ⟨n, find?_of_search hw (ready.trans ok), extreme.congr fun pos => accepts_replace⟩
  · exact .inr ⟨⟨_, find?_of_error hw (ready.trans failed)⟩, falters.of_replace⟩

/-- A search by backtracking finds the end that is asked for. -/
theorem find?_nfa (hg : g.Intact) (initial : g.initial = some i)
    (hw : input.window? = some window) (answers : g.Answers Nested.probe window) :
    ∃ n, g.find? .nfa input = .ok (n.map (input.taken window)) ∧
      IsExtreme input.earliest (g.Accepts Nested.probe window) n :=
  (find?_nfa_cases hg initial hw).resolve_right fun failed => not_falters answers failed.2

theorem search_eq_walk (h : mode ≠ .nfa) (probe : Probe Nested.Trial) (earliest : Bool)
    (g : Graph Nested.Trial) (window : List Char) :
    g.search probe mode earliest window = g.walk probe earliest window := by
  cases mode with
  | nfa => exact absurd rfl h
  | dfa => rfl
  | minimal => rfl

/-- A search along a single way finds the end that is asked for. -/
theorem find?_single (hg : g.Intact) (initial : g.initial = some i)
    (hw : input.window? = some window) (h : mode ≠ .nfa)
    (single : g.Single Nested.probe input.earliest window i) :
    ∃ n, g.find? mode input = .ok (n.map (input.taken window)) ∧
      IsExtreme input.earliest (g.Accepts Nested.probe window) n := by
  have ready : (g.replace Nested.trial).Single Nested.Trial.run input.earliest window i :=
    single_replace.mpr single
  obtain ⟨n, ok⟩ := walk_ok (g := g.replace Nested.trial) initial ready
  obtain ⟨-, extreme⟩ := walk_spec (intact_ready hg) initial ok
  refine ⟨n, find?_of_search hw ?_, extreme.congr fun pos => accepts_replace⟩
  rw [Nested.ready_eq, search_eq_walk h]
  exact ok

/-- A search along a single way that succeeds has seen no choice. -/
theorem single_of_find? (hg : g.Intact) (initial : g.initial = some i)
    (hw : input.window? = some window) (h : mode ≠ .nfa) {r : Option Match}
    (ok : g.find? mode input = .ok r) : g.Single Nested.probe input.earliest window i ∧
      ∃ n, r = n.map (input.taken window) ∧
        IsExtreme input.earliest (g.Accepts Nested.probe window) n := by
  obtain ⟨n, searched, found⟩ := search_of_find? hw ok
  rw [Nested.ready_eq, search_eq_walk h] at searched
  obtain ⟨single, extreme⟩ := walk_spec (intact_ready hg) initial searched
  have probed : g.Single (fun n => Nested.Trial.run (Nested.trial n)) input.earliest window i :=
    single_replace.mp single
  exact ⟨probed, n, found, extreme.congr fun pos => accepts_replace⟩

end Graph

end PatternAutomata
