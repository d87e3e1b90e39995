import PatternAutomata.Proofs.Determinized
import PatternAutomata.Proofs.Find
import PatternAutomata.Proofs.Minimized

/-!
# Transformed automata find the same

Searches by backtracking find the same in an automaton, in its deterministic form and in its
quotient. A search along a single way works in the deterministic form (`find?_determinize`), and in
the quotient wherever it works in the automaton itself (`find?_minimize`).
-/
namespace PatternAutomata.Graph

variable {g d : Automaton} {i j : Nat}

theorem dfa_ne_nfa : Mode.dfa ≠ .nfa := by decide

theorem isSigma_of_hasSigma (hg : g.Intact) (none : g.hasSigma = false) :
    ∀ s, ∀ t ∈ g.outgoing s, t.condition.isSigma = false := by
  intro s t ht
  obtain ⟨n, hn⟩ := hg.mem_liveTransitions ht
  unfold hasSigma at none
  rw [List.any_eq_false] at none
  simpa using none _ hn

/-- Automata that accept the same ends find the same by backtracking. -/
theorem find?_nfa_congr (hg : g.Intact) (hd : d.Intact) (hi : g.initial = some i)
    (hj : d.initial = some j) {input : Input} {window : List Char}
    (hw : input.window? = some window) (answers : g.Answers Nested.probe window)
    (answers' : d.Answers Nested.probe window)
    (same : ∀ pos, d.Accepts Nested.probe window pos ↔ g.Accepts Nested.probe window pos) :
    ∃ r, g.find? .nfa input = .ok r ∧ d.find? .nfa input = .ok r := by
  obtain ⟨n, found, extreme⟩ := find?_nfa hg hi hw answers
  obtain ⟨n', found', extreme'⟩ := find?_nfa hd hj hw answers'
  have equal : n' = n := (extreme'.congr same).unique extreme
  subst equal
  exact ⟨_, found, found'⟩

/-- The deterministic form of an automaton finds the same, by backtracking, and also along a single
way if the automaton has no sigma transition. -/
theorem find?_determinize (hg : g.HasHistory) (initial : g.initial = some i) (tag : Nat) :
    ∃ d, g.determinize tag = .ok d ∧ ∀ input, g.NestedSucceed input →
      ∃ r, g.find? .nfa input = .ok r ∧ d.find? .nfa input = .ok r ∧
        (g.hasSigma = false → d.find? .dfa input = .ok r) := by
  obtain ⟨d, b, ok, det⟩ := determinize_spec hg.intact initial tag
  refine ⟨d, ok, ?_⟩
  intro input succeed
  cases hw : input.window? with
  | none =>
    exact ⟨none, find?_of_invalid hw, find?_of_invalid hw, fun _ => find?_of_invalid hw⟩
  | some window =>
    have answers := succeed.answers hg.intact hw
    have same (pos : Nat) :
        d.Accepts Nested.probe window pos ↔ g.Accepts Nested.probe window pos :=
      det.accepts_iff initial answers
    obtain ⟨r, found, found'⟩ := find?_nfa_congr hg.intact det.intact_graph initial det.initial hw
      answers (det.answers answers) same
    refine ⟨r, found, found', ?_⟩
    intro free
    have single := det.single (isSigma_of_hasSigma hg.intact free) answers input.earliest
    obtain ⟨n, walked, extreme⟩ := find?_single det.intact_graph det.initial hw dfa_ne_nfa single
    obtain ⟨n', found'', extreme'⟩ := find?_nfa hg.intact initial hw answers
    have equal : n = n' := (extreme.congr same).unique extreme'
    rw [found''] at found
    rw [walked, equal]
    exact found

/-- It accepts the letter `a`. -/
def letter : Automaton :=
  (Graph.empty 0).replay [.addState, .addState, .setInitial ⟨0, 0⟩, .setAccepting ⟨0, 1⟩,
    .addTransition ⟨0, 0⟩ ⟨0, 1⟩ (.char 'a')]

/-- It accepts the letter `a` after a check for this letter. -/
def guarded : Automaton :=
  (Graph.empty 1).replay [.addState, .addState, .addState, .setInitial ⟨1, 0⟩,
    .setAccepting ⟨1, 2⟩, .addTransition ⟨1, 0⟩ ⟨1, 1⟩ (.check (.of letter) .nfa false),
    .addTransition ⟨1, 1⟩ ⟨1, 2⟩ (.char 'a')]

theorem hasHistory_letter : letter.HasHistory := ⟨0, _, rfl⟩

theorem hasHistory_guarded : guarded.HasHistory := ⟨1, _, rfl⟩

theorem initial_guarded : guarded.initial = some 0 := rfl

theorem liveTransitions_guarded : guarded.liveTransitions =
    [(⟨⟨0, 1, .check (.of letter) .nfa false⟩, false⟩, 0), (⟨⟨1, 2, .char 'a'⟩, false⟩, 1)] := rfl

/-- The nested automaton of `guarded` has no check that could fail. -/
theorem nestedSucceed_guarded (input : Input) : guarded.NestedSucceed input := by
  have live' : letter.liveTransitions = [(⟨⟨0, 1, .char 'a'⟩, false⟩, 0)] := rfl
  intro t ht nested mode negated hc start _ valid
  rw [liveTransitions_guarded] at ht
  simp only [List.mem_cons, List.not_mem_nil, or_false] at ht
  rcases ht with rfl | rfl
  · cases hc
    obtain ⟨window, hw⟩ := Option.isSome_iff_exists.mp valid
    have answers : letter.Answers Nested.probe window := by
      apply answers_of_unchecked hasHistory_letter.intact
      intro t ht nested mode negated hc
      rw [live', List.mem_singleton] at ht
      subst ht
      cases hc
    obtain ⟨n, found, _⟩ := find?_nfa hasHistory_letter.intact rfl hw answers
    exact ⟨_, found⟩
  · cases hc

theorem find?_determinize_guarded : guarded.HasHistory ∧ guarded.initial = some 0 ∧
    guarded.NestedSucceed (.ofText "ab") ∧ guarded.hasSigma = false ∧
      ∃ d r, guarded.determinize 2 = .ok d ∧ guarded.find? .nfa (.ofText "ab") = .ok r ∧
        d.find? .nfa (.ofText "ab") = .ok r ∧ d.find? .dfa (.ofText "ab") = .ok r := by
  obtain ⟨d, ok, same⟩ := find?_determinize hasHistory_guarded initial_guarded 2
  obtain ⟨r, found, found', found''⟩ := same (.ofText "ab") (nestedSucceed_guarded _)
  exact ⟨hasHistory_guarded, initial_guarded, nestedSucceed_guarded _, rfl, d, r, ok, found, found',
    found'' rfl⟩

/-- The quotient of an automaton finds the same along a single way, where such a search succeeds in
the automaton, and by backtracking. -/
theorem find?_minimize (hg : g.HasHistory) (initial : g.initial = some i) (tag : Nat) :
    ∃ m, g.minimize tag = .ok m ∧ ∀ input,
      (∀ r, g.find? .dfa input = .ok r → m.find? .dfa input = .ok r) ∧
        (g.NestedSucceed input → ∃ r, g.find? .nfa input = .ok r ∧ m.find? .nfa input = .ok r) := by
  obtain ⟨m, ok, quotient⟩ := minimize_spec hg.intact initial tag
  refine ⟨m, ok, ?_⟩
  intro input
  cases hw : input.window? with
  | none =>
    refine ⟨?_, fun _ => ⟨none, find?_of_invalid hw, find?_of_invalid hw⟩⟩
    intro r found
    rw [← found, find?_of_invalid hw, find?_of_invalid hw]
  | some window =>
    have same (pos : Nat) :
        m.Accepts Nested.probe window pos ↔ g.Accepts Nested.probe window pos :=
      quotient.accepts_iff initial
    constructor
    · intro r found
      obtain ⟨single, n, rfl, extreme⟩ := single_of_find? hg.intact initial hw dfa_ne_nfa found
      obtain ⟨n', found', extreme'⟩ := find?_single quotient.intact_graph quotient.initial hw
        dfa_ne_nfa (quotient.single single)
      have equal : n' = n := (extreme'.congr same).unique extreme
      exact equal ▸ found'
    · intro succeed
      have answers := succeed.answers hg.intact hw
      exact find?_nfa_congr hg.intact quotient.intact_graph initial quotient.initial hw answers
        (quotient.answers answers) same

theorem find?_minimize_guarded : guarded.HasHistory ∧ guarded.initial = some 0 ∧
    guarded.NestedSucceed (.ofText "ab") ∧ ∃ m r, guarded.minimize 2 = .ok m ∧
      guarded.find? .nfa (.ofText "ab") = .ok r ∧ m.find? .nfa (.ofText "ab") = .ok r ∧
        ∀ r, guarded.find? .dfa (.ofText "ab") = .ok r → m.find? .dfa (.ofText "ab") = .ok r := by
  obtain ⟨m, ok, same⟩ := find?_minimize hasHistory_guarded initial_guarded 2
  obtain ⟨along, back⟩ := same (.ofText "ab")
  obtain ⟨r, found, found'⟩ := back (nestedSucceed_guarded _)
  exact ⟨hasHistory_guarded, initial_guarded, nestedSucceed_guarded _, m, r, ok, found, found',
    along⟩

end PatternAutomata.Graph
