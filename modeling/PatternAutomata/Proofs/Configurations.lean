import PatternAutomata.Proofs.Offsets
import PatternAutomata.Proofs.Transforms

/-!
# Configurations of a search

A search of a text can also be told by the states that the automaton comes to at byte offsets of
the text, with checks that run their nested automata on what is left of the span. A search by
backtracking ends at the greatest of the offsets at which a state accepts, or at the least one if
that is asked for, whatever the order in which it tries the transitions (`find?_extreme`).
-/
namespace PatternAutomata

namespace Input

/-- What a check looks at from a byte offset: the rest of the span, for the earliest end. -/
def ahead (input : Input) (i : Nat) : Input := ⟨input.text, ⟨i, input.span.stop⟩, true⟩

/-- The match from the start of the span to a byte offset. -/
def upTo (input : Input) (j : Nat) : Match := ⟨input.text, ⟨input.span.start, j⟩⟩

end Input

namespace Graph

/-- The automaton, started at the start of the span, can come to be in a state at a byte offset. -/
inductive ReachesAt (g : Automaton) (input : Input) : Nat → Nat → Prop where
  | start {s} (h : g.initial = some s) : ReachesAt g input s input.span.start
  | silent {s i t} (h : ReachesAt g input s i) (leaves : t ∈ g.outgoing s)
      (sigma : t.condition.isSigma = true) : ReachesAt g input t.target i
  | consume {s i j t set x} (h : ReachesAt g input s i) (leaves : t ∈ g.outgoing s)
      (consumes : t.condition.charSet? = some set) (member : x ∈ set)
      (reads : Reads input.text input.span.stop i j [x]) : ReachesAt g input t.target j
  | look {s i t nested mode negated r} (h : ReachesAt g input s i) (leaves : t ∈ g.outgoing s)
      (checks : t.condition = .check nested mode negated)
      (run : nested.automaton.find? mode (input.ahead i) = .ok r)
      (holds : r.isSome = true ↔ negated = false) : ReachesAt g input t.target i

/-- The automaton can accept at a byte offset. -/
def AcceptsAt (g : Automaton) (input : Input) (j : Nat) : Prop :=
  ∃ s, g.ReachesAt input s j ∧ g.isAccepting s = true

/-- No nested automaton fails that is run from a configuration the automaton can come to. -/
def ChecksSucceed (g : Automaton) (input : Input) : Prop :=
  ∀ s i, g.ReachesAt input s i → ∀ t ∈ g.outgoing s, ∀ nested mode negated,
    t.condition = .check nested mode negated →
      ∃ r, nested.automaton.find? mode (input.ahead i) = .ok r

variable {g : Automaton} {input : Input} {window u : List Char} {i j s : Nat}

/-- Probing what is left of a window is running the nested automaton on the rest of the span. -/
theorem probe_eq_find? (hu : (input.ahead j).window? = some u) (n : Nested) (mode : Mode)
    {found : Bool} : Nested.probe n mode u = .ok found ↔
      ∃ r, n.automaton.find? mode (input.ahead j) = .ok r ∧ r.isSome = found := by
  rw [Nested.probe_eq]
  constructor
  · intro h
    cases searched : (Nested.ready n.automaton).search Nested.Trial.run mode true u with
    | error e => simp [searched, Except.map] at h
    | ok r =>
      rw [searched] at h
      refine ⟨_, find?_of_search hu searched, ?_⟩
      rw [Option.isSome_map]
      exact Except.ok.inj h
  · rintro ⟨r, ok, rfl⟩
    obtain ⟨n', searched, rfl⟩ := search_of_find? hu ok
    change (Nested.ready n.automaton).search _ mode true u = _ at searched
    rw [searched, Option.isSome_map]
    rfl

/-- What is left of a window ends where the span ends. -/
theorem window?_ahead (hu : EndsAt input.text input.span.stop u) :
    (input.ahead (input.span.stop - byteSize u)).window? = some u := by
  obtain ⟨before, after, split, size⟩ := hu
  refine window?_eq_some_iff.mpr ⟨before, after, split, ?_, size⟩
  rw [byteSize_append] at size
  simp only [Input.ahead]
  omega

section
variable (hw : input.window? = some window)
include hw

theorem endsAt_suffix (h : u <:+ window) : EndsAt input.text input.span.stop u :=
  (Input.endsAt_window hw).1.suffix h

theorem start_eq : input.span.start = input.span.stop - byteSize window := by
  have size := (Input.endsAt_window hw).2
  omega

/-- A condition that leads on, seen by the offsets. -/
theorem leads_reachesAt (h : u <:+ window)
    (reach : g.ReachesAt input s (input.span.stop - byteSize u)) {t : Transition Nested}
    (ht : t ∈ g.outgoing s) {v : List Char}
    (leads : t.condition.Leads Nested.probe u v) :
    g.ReachesAt input t.target (input.span.stop - byteSize v) := by
  have ends := endsAt_suffix hw h
  have consuming {set : CharSet} (hset : t.condition.charSet? = some set) :
      g.ReachesAt input t.target (input.span.stop - byteSize v) := by
    obtain ⟨x, hx, rfl⟩ := (Condition.leads_iff_of_charSet hset).mp leads
    exact reach.consume ht hset hx ((reads_iff ends).mpr ⟨v, rfl, rfl⟩)
  cases hc : t.condition with
  | char c => exact consuming (by rw [hc]; rfl)
  | set set => exact consuming (by rw [hc]; rfl)
  | sigma =>
    rw [hc] at leads
    cases leads
    exact reach.silent ht (by rw [hc]; rfl)
  | check nested mode negated =>
    rw [hc] at leads
    obtain ⟨rfl, answer⟩ := leads
    obtain ⟨r, ok, holds⟩ := (probe_eq_find? (window?_ahead ends) nested mode).mp answer
    refine reach.look ht hc ok ?_
    rw [holds]
    cases negated <;> simp

/-- The configurations are those of runs over the window. -/
theorem reachesAt_iff (initial : g.initial = some i) : g.ReachesAt input s j ↔
    ∃ u, g.Runs Nested.probe (i, window) (s, u) ∧ j = input.span.stop - byteSize u := by
  constructor
  · intro h
    induction h with
    | start h =>
      cases initial.symm.trans h
      exact ⟨window, .refl, start_eq hw⟩
    | silent _ leaves sigma ih =>
      obtain ⟨u, run, rfl⟩ := ih
      exact ⟨u, run.tail ⟨_, leaves, rfl, (Condition.leads_of_isSigma sigma).mpr rfl⟩, rfl⟩
    | @consume s j k t set x _ leaves consumes member reads ih =>
      obtain ⟨u, run, rfl⟩ := ih
      obtain ⟨v, rfl, rfl⟩ := (reads_iff (endsAt_suffix hw run.suffix)).mp reads
      have leads : t.condition.Leads Nested.probe ([x] ++ v) v :=
        (Condition.leads_iff_of_charSet consumes).mpr ⟨x, member, rfl⟩
      exact ⟨v, run.tail ⟨t, leaves, rfl, leads⟩, rfl⟩
    | @look s i t nested mode negated r _ leaves checks ok holds ih =>
      obtain ⟨u, run, rfl⟩ := ih
      have ends := endsAt_suffix hw run.suffix
      have answer : Nested.probe nested mode u = .ok !negated := by
        refine (probe_eq_find? (window?_ahead ends) nested mode).mpr ⟨r, ok, ?_⟩
        cases negated <;> simpa using holds
      refine ⟨u, run.tail ⟨t, leaves, rfl, ?_⟩, rfl⟩
      rw [checks]
      exact ⟨rfl, answer⟩
  · rintro ⟨u, run, rfl⟩
    generalize hb : (s, u) = b at run
    induction run generalizing s u with
    | refl =>
      cases hb
      exact start_eq hw ▸ .start initial
    | @tail b c run move ih =>
      subst hb
      obtain ⟨t, ht, rfl, leads⟩ := move
      exact leads_reachesAt hw (Runs.suffix run) (ih _ rfl) ht leads

/-- A run accepts where a configuration does. -/
theorem acceptsAt_iff (initial : g.initial = some i) : g.AcceptsAt input j ↔
    ∃ n, g.Accepts Nested.probe window n ∧ j = input.span.start + byteSize (window.take n) := by
  constructor
  · rintro ⟨s, reach, accepting⟩
    obtain ⟨u, run, rfl⟩ := (reachesAt_iff hw initial).mp reach
    have suffix : u <:+ window := run.suffix
    have len : window.length - u.length + u.length = window.length :=
      Nat.sub_add_cancel suffix.length_le
    exact ⟨_, accepts_iff.mpr ⟨i, s, u, initial, run, accepting, len⟩,
      (Input.offset_eq hw suffix len).symm⟩
  · rintro ⟨n, accepts, rfl⟩
    obtain ⟨_, s, u, hi, run, accepting, len⟩ := accepts_iff.mp accepts
    cases initial.symm.trans hi
    have offset := Input.offset_eq hw run.suffix len
    exact ⟨s, (reachesAt_iff hw initial).mpr ⟨u, run, offset⟩, accepting⟩

end

/-- A check that fails on a run is a nested automaton that fails at a configuration. -/
theorem not_falters_of_checksSucceed (hw : input.window? = some window)
    (initial : g.initial = some i) (succeed : g.ChecksSucceed input) :
    ¬ g.Falters Nested.probe window i := by
  rintro ⟨⟨s, u⟩, run, t, ht, nested, mode, negated, e, hc, failed⟩
  have reach := (reachesAt_iff hw initial).mpr ⟨u, run, rfl⟩
  obtain ⟨r, ok⟩ := succeed s _ reach t ht nested mode negated hc
  have ahead := window?_ahead (endsAt_suffix hw run.suffix)
  have answer := (probe_eq_find? ahead nested mode).mpr ⟨r, ok, rfl⟩
  cases failed.symm.trans answer

/-- What a search by backtracking finds is the offset that is asked for. -/
theorem extreme_of_find? (hg : g.Intact) (initial : g.initial = some i)
    (valid : input.isValid = true) {r : Option Match} (ok : g.find? .nfa input = .ok r) :
    ∃ found, r = found.map input.upTo ∧ IsExtreme input.earliest (g.AcceptsAt input) found := by
  obtain ⟨window, hw⟩ := Option.isSome_iff_exists.mp valid
  rcases find?_nfa_cases hg initial hw with ⟨n, ok', extreme⟩ | ⟨⟨e, failed⟩, -⟩
  · cases ok'.symm.trans ok
    refine ⟨n.map fun n => input.span.start + byteSize (window.take n), ?_, ?_⟩
    · cases n <;> rfl
    · exact extreme.map (fun le => Nat.add_le_add_left (byteSize_take_le le) _)
        fun j => acceptsAt_iff hw initial
  · cases failed.symm.trans ok

/-- A search by backtracking ends at the greatest offset at which the automaton can accept, or at
the least one if that is asked for, and it has no match only if there is no such offset. It cannot
fail unless a nested automaton fails that it can come to run, and wherever it does not fail it has
found that offset. -/
theorem find?_extreme (hg : g.HasHistory) (initial : g.initial = some i)
    (valid : input.isValid = true) :
    (g.ChecksSucceed input → ∃ found, g.find? .nfa input = .ok (found.map input.upTo) ∧
      IsExtreme input.earliest (g.AcceptsAt input) found) ∧
    ∀ r, g.find? .nfa input = .ok r →
      ∃ found, r = found.map input.upTo ∧ IsExtreme input.earliest (g.AcceptsAt input) found := by
  refine ⟨?_, fun r => extreme_of_find? hg.intact initial valid⟩
  intro succeed
  obtain ⟨window, hw⟩ := Option.isSome_iff_exists.mp valid
  rcases find?_nfa_cases hg.intact initial hw with ⟨n, ok, -⟩ | ⟨-, falters⟩
  · obtain ⟨found, same, extreme⟩ := extreme_of_find? hg.intact initial valid ok
    exact ⟨found, same ▸ ok, extreme⟩
  · exact absurd falters (not_falters_of_checksSucceed hw initial succeed)

/-- Nested automata that run without error from every place run without error where they are met. -/
theorem NestedSucceed.checksSucceed (hg : g.Intact) (initial : g.initial = some i)
    (valid : input.isValid = true) (h : g.NestedSucceed input) : g.ChecksSucceed input := by
  obtain ⟨window, hw⟩ := Option.isSome_iff_exists.mp valid
  intro s j reach t ht nested mode negated hc
  obtain ⟨u, run, rfl⟩ := (reachesAt_iff hw initial).mp reach
  obtain ⟨r, ok⟩ := h.answers hg hw s t ht nested mode negated hc u run.suffix
  obtain ⟨found, searched, -⟩ :=
    (probe_eq_find? (window?_ahead (endsAt_suffix hw run.suffix)) nested mode).mp ok
  exact ⟨found, searched⟩

theorem find?_extreme_guarded : guarded.HasHistory ∧ guarded.initial = some 0 ∧
    (Input.ofText "ab").isValid = true ∧ guarded.ChecksSucceed (.ofText "ab") ∧
      ∃ found, guarded.find? .nfa (.ofText "ab") = .ok (found.map (Input.ofText "ab").upTo) ∧
        IsExtreme false (guarded.AcceptsAt (.ofText "ab")) found := by
  have valid : (Input.ofText "ab").isValid = true := Input.isValid_ofText "ab"
  have succeed : guarded.ChecksSucceed (.ofText "ab") :=
    (nestedSucceed_guarded _).checksSucceed hasHistory_guarded.intact initial_guarded valid
  exact ⟨hasHistory_guarded, initial_guarded, valid, succeed,
    (find?_extreme hasHistory_guarded initial_guarded valid).1 succeed⟩

end Graph

end PatternAutomata
