import PatternAutomata.Construction.Compiled
import PatternAutomata.Proofs.Determinized
import PatternAutomata.Proofs.Mapped
import PatternAutomata.Proofs.Minimized
import PatternAutomata.Proofs.SigmaFree

/-!
# Automata that are ready to be searched

Preparing an automaton for a mode cannot fail. The result accepts the same, and a search in the
mode finds the end that is asked for (`prepare_spec`).
-/
namespace PatternAutomata.Graph

variable {ν μ : Type} {probe : Probe ν} {mode : Mode}

/-- From the state `i` on, searches in the mode cannot fail. -/
structure Searchable (g : Graph ν) (probe : Probe ν) (mode : Mode) (i : Nat) : Prop where
  intact : g.Intact
  initial : g.initial = some i
  answers : ∀ window, g.Answers probe window
  single : mode ≠ .nfa → ∀ earliest window, g.Single probe earliest window i

/-- A search finds the end that is asked for. -/
theorem Searchable.search {g : Graph ν} {i : Nat} (h : g.Searchable probe mode i)
    (earliest : Bool) (window : List Char) : ∃ n, g.search probe mode earliest window = .ok n ∧
      IsExtreme earliest (g.Accepts probe window) n := by
  have walked (other : mode ≠ .nfa) : ∃ n, g.walk probe earliest window = .ok n ∧
      IsExtreme earliest (g.Accepts probe window) n := by
    obtain ⟨n, ok⟩ := walk_ok h.initial (h.single other earliest window)
    exact ⟨n, ok, (walk_spec h.intact h.initial ok).2⟩
  cases mode with
  | nfa => exact backtrack_spec h.intact h.initial earliest (h.answers window)
  | dfa => exact walked (by decide)
  | minimal => exact walked (by decide)

theorem Searchable.replace {g : Graph ν} {i : Nat} {f : ν → μ} {probe : Probe μ}
    (h : g.Searchable (fun n => probe (f n)) mode i) :
    (g.replace f).Searchable probe mode i where
  intact := h.intact.replace
  initial := h.initial
  answers window := answers_replace.mpr (h.answers window)
  single other earliest window := single_replace.mpr (h.single other earliest window)

variable [DecidableEq ν] [Hashable ν] {g : Graph ν} {i : Nat}

/-- Two transformations make an automaton deterministic. -/
theorem deterministic_spec (hg : g.Intact) (initial : g.initial = some i)
    (answers : ∀ window, g.Answers probe window) (tag : Nat) :
    ∃ h d j, g.removeEpsilon tag = .ok h ∧ h.determinize tag = .ok d ∧
      d.Searchable probe .dfa j ∧ ∀ u v, d.Ends probe j u v ↔ g.Ends probe i u v := by
  obtain ⟨h, free, without⟩ := removeEpsilon_spec hg initial tag
  obtain ⟨j, start, same⟩ := without.start initial
  have answers' (window : List Char) : h.Answers probe window := without.answers (answers window)
  obtain ⟨d, b, ok, det⟩ := determinize_spec without.intact start tag
  refine ⟨h, d, 0, free, ok, ⟨det.intact_graph, det.initial, ?_, ?_⟩, ?_⟩
  · intro window
    exact det.answers (answers' window)
  · intro _ earliest window
    exact det.single (fun s t ht => (without.conditions s t ht).1) (answers' window) earliest
  · intro u v
    rw [det.ends_start (answers' u), same]

theorem prepare_minimal {h d m : Graph ν} {tag : Nat} (free : g.removeEpsilon tag = .ok h)
    (ok : h.determinize tag = .ok d) (least : d.minimize tag = .ok m) :
    g.prepare tag .minimal = .ok m := by
  simp only [prepare, free]
  change (do (← h.determinize tag).minimize tag) = _
  rw [ok]
  exact least

/-- Preparing an automaton for a mode does not fail, whatever its checks are. -/
theorem exists_prepare (hg : g.Intact) (initial : g.initial = some i) (tag : Nat) (mode : Mode) :
    ∃ h, g.prepare tag mode = .ok h ∧ h.Intact := by
  obtain ⟨h, free, without⟩ := removeEpsilon_spec hg initial tag
  obtain ⟨j, start, -⟩ := without.start initial
  obtain ⟨d, b, ok, det⟩ := determinize_spec without.intact start tag
  cases mode with
  | nfa => exact ⟨g, rfl, hg⟩
  | dfa =>
    refine ⟨d, ?_, det.intact_graph⟩
    simp only [prepare, free]
    exact ok
  | minimal =>
    obtain ⟨m, least, quotient⟩ := minimize_spec det.intact_graph det.initial tag
    exact ⟨m, prepare_minimal free ok least, quotient.intact_graph⟩

/-- An automaton can be prepared for any mode, and accepts the same afterwards. -/
theorem prepare_spec (hg : g.Intact) (initial : g.initial = some i)
    (answers : ∀ window, g.Answers probe window) (tag : Nat) (mode : Mode) :
    ∃ h j, g.prepare tag mode = .ok h ∧ h.Searchable probe mode j ∧
      ∀ u v, h.Ends probe j u v ↔ g.Ends probe i u v := by
  cases mode with
  | nfa =>
    exact ⟨g, i, rfl, ⟨hg, initial, answers, fun other => absurd rfl other⟩, fun _ _ => Iff.rfl⟩
  | dfa =>
    obtain ⟨h, d, j, free, ok, searchable, same⟩ := deterministic_spec hg initial answers tag
    refine ⟨d, j, ?_, searchable, same⟩
    simp only [prepare, free]
    exact ok
  | minimal =>
    obtain ⟨h, d, j, free, ok, searchable, same⟩ := deterministic_spec hg initial answers tag
    obtain ⟨m, least, quotient⟩ := minimize_spec searchable.intact searchable.initial tag
    refine ⟨m, d.division.block j, prepare_minimal free ok least,
      ⟨quotient.intact_graph, quotient.initial, ?_, ?_⟩, ?_⟩
    · intro window
      exact quotient.answers (searchable.answers window)
    · intro _ earliest window
      exact quotient.single (searchable.single (by decide) earliest window)
    · intro u v
      rw [quotient.ends_iff quotient.start, same]

end PatternAutomata.Graph
