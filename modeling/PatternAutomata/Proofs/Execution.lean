import PatternAutomata.Proofs.Nesting
import PatternAutomata.Proofs.Simulation
import PatternAutomata.Proofs.SigmaRemoval
import Mathlib.Algebra.Order.BigOperators.Group.List
import Mathlib.Algebra.Order.Group.Nat

/-!
# Searches carried out by machines

A machine whose checks are run by machines, down to the depth of the nesting, finds what a search
finds (`IntactThroughout.exists_depth`). A search therefore stays on the boundaries of its span
(`execute_uncut`) and comes to an end (`execute_halts`).
-/
namespace PatternAutomata.Graph

/-- The states of a closure are listed once each. -/
theorem nodup_closureFrom {ν : Type} (g : Graph ν) (seen : Marks g.states.size)
    (pending : List Nat) : (g.closureFrom seen pending).Nodup ∧
      ∀ s ∈ g.closureFrom seen pending, seen.contains s = false := by
  fun_induction closureFrom g seen pending with
  | case1 => exact ⟨.nil, by simp⟩
  | case2 seen s pending old ih => exact ih
  | case3 seen s pending seen' new ih =>
    obtain ⟨once, free⟩ := ih
    have grown (r : Nat) := Marks.contains_of_mark? (j := r) new
    refine ⟨List.nodup_cons.mpr ⟨fun again => ?_, once⟩, List.forall_mem_cons.mpr
      ⟨(Marks.lt_of_mark? new).2, fun r hr => ?_⟩⟩
    · have gone := free s again
      rw [grown, beq_self_eq_true, Bool.true_or] at gone
      cases gone
    · have gone := free r hr
      rw [grown, Bool.or_eq_false_iff] at gone
      exact gone.2

theorem nodup_closure {ν : Type} (g : Graph ν) (s : Nat) : (g.closure s).Nodup :=
  (nodup_closureFrom g _ _).1

section
variable {run : Runner} {g : Automaton} {input : Input} {window : List Char} {mode : Mode}
  {s i : Nat} {m : Match}

theorem search_eq (hg : g.Intact) (mode : Mode) (earliest : Bool) (window : List Char) :
    (Nested.ready g).search Nested.Trial.run mode earliest window =
      g.search Nested.probe mode earliest window := by
  have walks : (Nested.ready g).walk Nested.Trial.run earliest window =
      g.walk Nested.probe earliest window := by
    rw [Nested.ready_eq]
    exact walk_replace
  cases mode with
  | nfa => exact search_nfa hg earliest window
  | dfa => exact walks
  | minimal => exact walks

theorem outcomeFrom_eq (hg : g.Intact) (initial : g.initial = some i)
    (hw : input.window? = some window) (trusts : g.Trusts run) (mode : Mode) :
    g.outcomeFrom run input mode i = input.told window (input.offset window)
      (g.search Nested.probe mode input.earliest window) := by
  cases mode with
  | nfa => exact Backtracker.outcomeFrom_eq hg initial hw trusts
  | dfa => exact Walker.outcomeFrom_eq (by decide) hg initial hw trusts
  | minimal => exact Walker.outcomeFrom_eq (by decide) hg initial hw trusts

/-- A machine finds what a search finds, if it can trust the runner. -/
theorem executeWith_eq (hg : g.Intact) (trusts : g.Trusts run) (mode : Mode) (input : Input) :
    g.executeWith run input mode = (g.find? mode input).mapError .failed := by
  unfold executeWith find? Input.isValid
  cases hw : input.window? with
  | none => rfl
  | some window =>
    simp only [Option.isSome_some, if_true, search_eq hg]
    cases initial : g.initial with
    | none => cases mode <;> simp only [search, backtrack, walk, initial] <;> rfl
    | some i =>
      simp only [outcomeFrom_eq hg initial hw trusts]
      cases g.search Nested.probe mode input.earliest window with
      | error e => rfl
      | ok r => cases r <;> rfl

theorem incurs_of_outcomeFrom (hg : g.Intact) (live : g.IsLive s) (valid : input.isValid = true)
    {e : Fault} (failed : g.outcomeFrom run input mode s = .error e) : g.Incurs run input e := by
  by_cases single : mode = .nfa
  · subst single
    obtain ⟨n, m, -, steps, halts⟩ := Backtracker.halts run hg live valid
    exact (Backtracker.tidy_of_steps hg live valid steps).incurred e (failed ▸ halts)
  · obtain ⟨n, m, -, steps, halts⟩ := Walker.halts run single hg live valid
    exact (Walker.tidy_of_steps hg live valid steps).incurred e (failed ▸ halts)

/-- The faults of an execution are errors of the automaton or faults of nested automata. -/
theorem incurs_of_executeWith (hg : g.Intact) {e : Fault}
    (failed : g.executeWith run input mode = .error e) : g.Incurs run input e := by
  unfold executeWith at failed
  split at failed
  · next valid =>
    cases initial : g.initial with
    | none =>
      simp only [initial] at failed
      cases failed
      exact .inl ⟨_, rfl⟩
    | some s =>
      simp only [initial] at failed
      have came : g.outcomeFrom run input mode s = .error e := by
        cases came : g.outcomeFrom run input mode s with
        | error e' =>
          rw [came] at failed
          cases failed
          rfl
        | ok found =>
          rw [came] at failed
          cases failed
      exact incurs_of_outcomeFrom hg (hg.initial_live s initial) valid came
  · cases failed

namespace IntactThroughout

/-- The text is never cut where it cannot be cut, by no machine at any depth. -/
theorem uncut (h : g.IntactThroughout) (depth : Nat) (mode : Mode) (input : Input) (i : Nat) :
    g.execute depth mode input ≠ .error (.cut i) := by
  induction depth generalizing g mode input with
  | zero => exact fun cut => by cases cut
  | succ depth ih =>
    intro cut
    rcases incurs_of_executeWith h.intact cut with
      ⟨err, same⟩ | ⟨n, hn, mode', j, -, cut'⟩
    · cases same
    · exact ih (h.nested hn) mode' (input.ahead j) cut'

/-- Machines find what searches find, if they go deep enough for all nested automata. -/
theorem exists_depth (h : g.IntactThroughout) : ∃ depth, ∀ d, depth ≤ d → ∀ mode input,
    g.execute d mode input = (g.find? mode input).mapError .failed := by
  induction h with
  | @intro g intact _ ih =>
    choose! depth equal using ih
    -- The depths of the nested automata together are enough for each of them.
    refine ⟨(g.nested.map depth).sum + 1, fun d le mode input => ?_⟩
    obtain ⟨d, rfl⟩ := Nat.exists_eq_add_of_le' (Nat.le_of_add_left_le le)
    refine executeWith_eq intact (fun n hn mode input => ?_) mode input
    have deep : depth n ≤ (g.nested.map depth).sum := List.le_sum_of_mem (List.mem_map_of_mem hn)
    exact equal n hn d (Nat.le_trans deep (Nat.le_of_succ_le_succ le)) mode input

end IntactThroughout

/-- A match that is found takes the front of the window. -/
theorem match_of_find? (ok : g.find? mode input = .ok (some m)) :
    ∃ taken rest, input.window? = some (taken ++ rest) ∧
      m = input.upTo (input.span.start + byteSize taken) := by
  cases hw : input.window? with
  | none =>
    rw [find?_of_invalid hw] at ok
    cases ok
  | some window =>
    obtain ⟨found, -, same⟩ := search_of_find? hw ok
    obtain ⟨n, -, rfl⟩ := Option.map_eq_some_iff.mp same.symm
    exact ⟨window.take n, window.drop n, congrArg some (List.take_append_drop n window).symm, rfl⟩

/-- The match that takes the front of a window can be cut out of the text. -/
theorem upTo_spec {taken rest : List Char} (hw : input.window? = some (taken ++ rest)) :
    let m := input.upTo (input.span.start + byteSize taken)
    m.span.stop ≤ input.span.stop ∧ m.span.stop ∈ input.boundaries ∧
      (Input.mk m.text m.span input.earliest).isValid = true ∧ m.consumed.toList = taken ∧
        m.size = byteSize taken := by
  have size := (Input.endsAt_window hw).2
  rw [byteSize_append] at size
  obtain ⟨text, ⟨start, stop⟩, earliest⟩ := input
  have after : (Input.mk text ⟨start + byteSize taken, stop⟩ true).window? = some rest :=
    window?_suffix hw
  have front (e : Bool) :
      (Input.mk text ⟨start, start + byteSize taken⟩ e).window? = some taken := window?_prefix hw
  refine ⟨?_, Input.mem_boundaries.mpr ⟨Nat.le_add_right .., ?_⟩, ?_, ?_,
    Nat.add_sub_cancel_left ..⟩
  · simp only [Input.upTo] at size ⊢
    omega
  · exact Option.isSome_iff_exists.mpr ⟨_, after⟩
  · exact Option.isSome_iff_exists.mpr ⟨_, front earliest⟩
  · simp only [Match.consumed, Input.upTo, front, Option.getD_some, String.toList_ofList]

/-- Machines never cut the text at an offset that is out of range or inside a character, at no depth
of nesting, and they find what searches find. A span that cannot be used has no match. Any match
goes from the start of the span to a boundary inside it, so its text can be cut out, and its size is
the sum of the widths of the characters it consumes. -/
theorem execute_uncut (hg : g.IntactThroughout) :
    (∀ depth mode input i, g.execute depth mode input ≠ .error (.cut i)) ∧
    (∃ depth, ∀ d, depth ≤ d → ∀ mode input,
      g.execute d mode input = (g.find? mode input).mapError .failed) ∧
    ∀ mode input, (input.isValid = false → g.find? mode input = .ok none) ∧
      ∀ m, g.find? mode input = .ok (some m) → m.text = input.text ∧
        m.span.start = input.span.start ∧ m.span.start ≤ m.span.stop ∧
          m.span.stop ≤ input.span.stop ∧ m.span.stop ∈ input.boundaries ∧
            (Input.mk m.text m.span input.earliest).isValid = true ∧
              m.consumed.toList <+: input.inside.toList ∧
                m.size = byteSize m.consumed.toList := by
  refine ⟨hg.uncut, hg.exists_depth, fun mode input => ⟨fun invalid => ?_, fun m ok => ?_⟩⟩
  · exact find?_of_invalid (by simpa [Input.isValid] using invalid)
  · obtain ⟨taken, rest, hw, rfl⟩ := match_of_find? ok
    obtain ⟨le, boundary, valid, consumed, size⟩ := upTo_spec hw
    refine ⟨rfl, rfl, Nat.le_add_right .., le, boundary, valid, ?_, ?_⟩
    · rw [consumed, Input.toList_inside hw]
      exact List.prefix_append taken rest
    · rw [consumed, size]

theorem intactThroughout_forked : forked.IntactThroughout := by
  have none : forked.nested = [] := rfl
  have history : forked.HasHistory := ⟨0, _, rfl⟩
  exact history.intactThroughout (by simp [none])

theorem walk_forked : forked.walk Nested.probe false ['é'] = .ok (some 1) := by
  change walkFrom _ _ _ _ _ 0 _ = _
  rw [walkFrom]
  change walkFrom _ _ _ _ _ 1 ⟨1, []⟩ = _
  rw [walkFrom]
  rfl

theorem find?_forked : forked.find? .dfa ⟨"éb", ⟨0, 2⟩, false⟩ = .ok (some ⟨"éb", ⟨0, 2⟩⟩) := by
  have hw : (Input.mk "éb" ⟨0, 2⟩ false).window? = some ['é'] := by decide
  have hg : forked.Intact := intactThroughout_forked.intact
  exact find?_of_search hw ((search_eq hg .dfa false ['é']).trans walk_forked)

theorem execute_uncut_forked : forked.IntactThroughout ∧
    (∀ depth i, forked.execute depth .dfa ⟨"éb", ⟨0, 2⟩, false⟩ ≠ .error (.cut i)) ∧
    (Input.mk "éb" ⟨1, 2⟩ false).isValid = false ∧
      forked.find? .dfa ⟨"éb", ⟨1, 2⟩, false⟩ = .ok none ∧
    forked.find? .dfa ⟨"éb", ⟨0, 2⟩, false⟩ = .ok (some ⟨"éb", ⟨0, 2⟩⟩) ∧
      2 ∈ (Input.mk "éb" ⟨0, 2⟩ false).boundaries ∧
        2 = byteSize (Match.mk "éb" ⟨0, 2⟩).consumed.toList := by
  obtain ⟨uncut, -, finds⟩ := execute_uncut intactThroughout_forked
  have invalid : (Input.mk "éb" ⟨1, 2⟩ false).isValid = false := by decide
  obtain ⟨-, -, -, -, boundary, -, -, size⟩ :=
    (finds .dfa ⟨"éb", ⟨0, 2⟩, false⟩).2 _ find?_forked
  exact ⟨intactThroughout_forked, fun depth i => uncut depth .dfa _ i, invalid,
    (finds .dfa _).1 invalid, find?_forked, boundary, size⟩

/-- Both machines halt, whatever the nested automata do. The one that backtracks enters no
configuration twice and tries no transition twice from a configuration, the other one visits no
configuration twice, so there are never more of them than pairs of a live state and a boundary. A
closure does not list a transition twice, either. Machines get to the end of the nesting, too, since
they find what searches find. -/
theorem execute_halts (hg : g.IntactThroughout) :
    (∀ i, g.initial = some i → ∀ input : Input, input.isValid = true → ∀ run : Runner,
      (∃ n m, n ≤ (g.chances input).length + 1 ∧ Backtracker.After run g input i n m ∧
        m.outcome = some (g.outcomeFrom run input .nfa i)) ∧
      (∀ n m, Backtracker.After run g input i n m → m.visited.Nodup ∧
        m.visited.length ≤ g.liveStates.length * input.boundaries.length ∧ m.tried.Nodup ∧
          ∀ c k, (c, k) ∈ m.tried → c ∈ m.visited ∧ k < (g.closed c.1).leaving.length) ∧
      (∀ mode, mode ≠ .nfa → ∃ n m, n ≤ g.liveStates.length * input.boundaries.length ∧
        Walker.After run g input i n m ∧ m.outcome = some (g.outcomeFrom run input mode i)) ∧
      ∀ n m, Walker.After run g input i n m → m.trail.Nodup ∧ m.trail.length = n ∧
        m.trail.length ≤ g.liveStates.length * input.boundaries.length) ∧
    (∀ s, (g.closure s).Nodup) ∧
    ∃ depth, ∀ d, depth ≤ d → ∀ mode input,
      g.execute d mode input = (g.find? mode input).mapError .failed := by
  refine ⟨fun i initial input valid run => ?_, nodup_closure g, hg.exists_depth⟩
  have intact := hg.intact
  have live := intact.initial_live i initial
  refine ⟨Backtracker.halts run intact live valid, fun n m after => ?_, fun mode single => ?_,
    fun n m after => ?_⟩
  · have tidy := Backtracker.tidy_of_steps intact live valid after
    exact ⟨tidy.once, tidy.le_configurations, tidy.triedOnce, tidy.fromEntered⟩
  · rw [← length_configurations]
    exact Walker.halts run single intact live valid
  · have tidy := Walker.tidy_of_steps intact live valid after
    exact ⟨tidy.once, tidy.counted, tidy.le_configurations⟩

theorem intactThroughout_entangled : entangled.IntactThroughout := by
  have nested : entangled.nested = [.of forked, .of forked] := rfl
  refine hasHistory_entangled.intactThroughout fun n hn => ?_
  rw [nested] at hn
  have same : n = .of forked := by simpa using hn
  exact same ▸ intactThroughout_forked

theorem execute_halts_entangled : entangled.IntactThroughout ∧ entangled.initial = some 0 ∧
    (Input.ofText "a").isValid = true ∧
    (∀ run, ∃ n m, n ≤ 6 ∧ Walker.After run entangled (.ofText "a") 0 n m ∧
      m.outcome = some (entangled.outcomeFrom run (.ofText "a") .dfa 0)) ∧
    (∀ run n m, Backtracker.After run entangled (.ofText "a") 0 n m →
      m.visited.Nodup ∧ m.visited.length ≤ 6) ∧
    ∃ depth, ∀ d, depth ≤ d → entangled.execute d .nfa (.ofText "a") =
      (entangled.find? .nfa (.ofText "a")).mapError .failed := by
  obtain ⟨halts, -, depth, equal⟩ := execute_halts intactThroughout_entangled
  have valid : (Input.ofText "a").isValid = true := Input.isValid_ofText "a"
  have size : entangled.liveStates.length * (Input.ofText "a").boundaries.length = 6 := by decide
  refine ⟨intactThroughout_entangled, rfl, valid, fun run => ?_, fun run n m after => ?_,
    depth, fun d le => equal d le .nfa _⟩
  · exact size ▸ (halts 0 rfl _ valid run).2.2.1 .dfa (by decide)
  · obtain ⟨once, le, -⟩ := (halts 0 rfl _ valid run).2.1 n m after
    exact ⟨once, size ▸ le⟩

end

end PatternAutomata.Graph
