import PatternAutomata.Proofs.Locality
import PatternAutomata.Proofs.Mirrors
import PatternAutomata.Proofs.SigmaFree

/-!
# Searches after the removal of sigma transitions

The states of an automaton without its sigma transitions mirror the anchors that they stand for:
what leaves an anchor is tried in the same order, less what would be tried a second time. A search
by backtracking therefore has the same outcome, a failure included (`find?_removeEpsilon`).
-/
namespace PatternAutomata.Graph

section
variable {ν : Type} {g : Graph ν} {i : Nat}

/-- Without sigma transitions the closure of a state is the state itself. -/
theorem closed_of_free {s : Nat} (hs : s < g.states.size)
    (free : ∀ t ∈ g.outgoing s, t.condition.isSigma = false) :
    g.closed s = ⟨g.isAccepting s, g.outgoing s⟩ := by
  have targets : g.sigmaTargets s = [] :=
    List.filterMap_eq_nil_iff.mpr fun t ht => by simp [free t ht]
  obtain ⟨seen, new⟩ := Marks.exists_mark? hs (Marks.contains_empty s)
  have alone : g.closure s = [s] := by
    rw [closure, closureFrom_new g new, targets, List.append_nil, closureFrom_nil]
  have leaving : (g.outgoing s).filter (fun t => !t.condition.isSigma) = g.outgoing s :=
    List.filter_eq_self.mpr fun t ht => by simp [free t ht]
  simp [closed, alone, leaving]

/-- The edge that a transition which leaves the closure of an anchor becomes. -/
def anchorEdge (g : Graph ν) (i p : Nat) (t : Transition ν) : Option (Edge ν) :=
  ((Numbering.ofList (g.anchors i)).place? t.target).map fun q => ⟨p, q, t.condition⟩

theorem filter_anchorEdges {p s : Nat} (hp : (g.anchors i)[p]? = some s) :
    (g.anchorEdges i).filter (fun e => e.source == p) =
      (g.closed s).leaving.filterMap (g.anchorEdge i p) := by
  have edges : g.anchorEdges i = (g.anchors i).zipIdx.flatMap fun a =>
      (g.closed a.1).leaving.filterMap (g.anchorEdge i a.2) := by
    conv_lhs => rw [anchorEdges, ← List.zipIdx_map_fst 0 (g.anchors i), List.flatMap_map]
    refine List.flatMap_congr fun a ha => List.filterMap_congr fun t _ => ?_
    have place : (Numbering.ofList (g.anchors i)).place? a.1 = some a.2 :=
      (Numbering.place?_ofList nodup_anchors).mpr (List.mem_zipIdx_iff_getElem?.mp ha)
    simp only [List.zipIdx_map_fst, rename?, place, anchorEdge]
    cases (Numbering.ofList (g.anchors i)).place? t.target <;> rfl
  have sources : ∀ a : Nat × Nat, ∀ e ∈ (g.closed a.1).leaving.filterMap (g.anchorEdge i a.2),
      e.source = a.2 := by
    intro a e he
    obtain ⟨t, -, ht⟩ := List.mem_filterMap.mp he
    obtain ⟨q, -, rfl⟩ := Option.map_eq_some_iff.mp ht
    rfl
  have own := filter_source_flatMap sources (g.anchors i) 0 p
  simp only [Nat.zero_add, hp] at own
  rw [edges, own]
  rfl

/-- What leaves an anchor leads to anchors, so that all of it becomes edges. -/
theorem forall₂_anchorEdge (hg : g.Intact) (p s : Nat) : List.Forall₂
    (fun t e => (g.anchors i)[e.target]? = some t.target ∧ e.condition = t.condition)
      (g.closed s).leaving ((g.closed s).leaving.filterMap (g.anchorEdge i p)) := by
  have all : ∀ t ∈ (g.closed s).leaving, ∃ e, g.anchorEdge i p t = some e ∧
      (g.anchors i)[e.target]? = some t.target ∧ e.condition = t.condition := by
    intro t ht
    obtain ⟨m, -, out, free⟩ := mem_leaving.mp ht
    have anchor : t.target ∈ g.anchors i :=
      (mem_anchors hg).mpr ⟨hg.isLive_target out, .inr ⟨m, t, out, rfl, free⟩⟩
    obtain ⟨q, hq⟩ := List.mem_iff_getElem?.mp anchor
    refine ⟨⟨p, q, t.condition⟩, ?_, hq, rfl⟩
    rw [anchorEdge, (Numbering.place?_ofList nodup_anchors).mpr hq]
    rfl
  generalize (g.closed s).leaving = ts at all
  induction ts with
  | nil => exact .nil
  | cons t ts ih =>
    obtain ⟨⟨e, he, same⟩, rest⟩ := List.forall_mem_cons.mp all
    rw [List.filterMap_cons, he]
    exact .cons same (ih rest)

section
variable [DecidableEq ν] [Hashable ν] {tag : Nat} {h : Graph ν}

theorem joins_distinct_anchorEdges :
    Joins ((g.anchors i).map fun s => (g.closed s).accepting).length
      (distinct (g.anchorEdges i)) := by
  intro e he
  rw [List.length_map]
  exact joins_anchorEdges e (mem_distinct.mp he)

/-- The states of an automaton without its sigma transitions mirror the anchors. -/
theorem mirrors_removeEpsilon (hg : g.Intact) (initial : g.initial = some i)
    (removed : g.removeEpsilon tag = .ok h) (probe : Probe ν) :
    Mirrors g probe h probe fun s p => (g.anchors i)[p]? = some s := by
  obtain ⟨h', ok, without⟩ := removeEpsilon_spec hg initial tag
  cases removed.symm.trans ok
  rw [removeEpsilon_eq tag initial] at removed
  cases removed
  have live {s p : Nat} (hp : (g.anchors i)[p]? = some s) : p < (g.anchors i).length :=
    (List.getElem?_eq_some_iff.mp hp).1
  have closed {s p : Nat} (hp : (g.anchors i)[p]? = some s) :=
    closed_of_free (isLive_build.mpr (by simpa using live hp)).lt
      fun t ht => (without.conditions p t ht).1
  refine ⟨fun s p hp => ⟨?_, ?_⟩, fun s p hp s' p' hp' => ?_, fun s p hp => ?_,
    fun s p hp => ?_, ?_⟩
  · exact ((mem_anchors hg).mp (List.mem_of_getElem? hp)).1.lt
  · exact (isLive_build.mpr (by simpa using live hp)).lt
  · constructor
    · rintro rfl
      exact (List.getElem?_inj (live hp) nodup_anchors).mp (hp.trans hp'.symm)
    · rintro rfl
      exact Option.some.inj (hp.symm.trans hp')
  · rw [closed hp, isAccepting_build, List.getElem?_map, hp]
    rfl
  · have thin := ((Thins.distinct (g.anchorEdges i)).filter fun e => e.source == p).map
      fun e => (⟨e, false⟩ : Transition ν)
    refine ⟨_, ?_, by simpa only [closed hp, outgoing_build joins_distinct_anchorEdges] using thin⟩
    rw [filter_anchorEdges hp, List.forall₂_map_right_iff]
    refine (forall₂_anchorEdge hg p s).imp fun t e related => ⟨related.1, fun q => ?_⟩
    simp only [related.2]
  · obtain ⟨i', j, initial', start, -⟩ := without.initial
    cases initial.symm.trans initial'
    rw [initial, start]
    exact .some ((Numbering.place?_ofList nodup_anchors).mp start)

end

end

theorem search_nfa {g : Automaton} (hg : g.Intact) (earliest : Bool) (window : List Char) :
    (Nested.ready g).search Nested.Trial.run .nfa earliest window =
      g.backtrack Nested.probe earliest window := by
  rw [Nested.ready_eq]
  exact backtrack_replace hg earliest window

/-- Automata that mirror each other find the same by backtracking. -/
theorem Mirrors.find?_eq {g h : Automaton} {stands : Nat → Nat → Prop}
    (m : Mirrors g Nested.probe h Nested.probe stands) (hg : g.Intact) (hh : h.Intact)
    (input : Input) : h.find? .nfa input = g.find? .nfa input := by
  unfold find?
  simp only [search_nfa hg, search_nfa hh, m.backtrack_eq]

/-- All edges of an automaton made from a list of edges are live. -/
theorem liveTransitions_build {ν : Type} {tag : Nat} {accepting : List Bool} {edges : List (Edge ν)}
    {initial : Option Nat} :
    (build tag accepting edges initial).liveTransitions.map (·.1.toEdge) = edges := by
  have all : ∀ t ∈ (edges.map fun e => (⟨e, false⟩ : Transition ν)).zipIdx, !t.1.deleted := by
    intro t ht
    obtain ⟨e, -, same⟩ := List.mem_map.mp (List.fst_mem_of_mem_zipIdx ht)
    simp [← same]
  rw [liveTransitions, transitions_build, List.filter_eq_self.mpr all]
  conv_lhs => rw [← Function.comp_def Transition.toEdge Prod.fst, ← List.map_map,
    List.zipIdx_map_fst, List.map_map]
  exact List.map_id edges

/-- An automaton without its sigma transitions has no two live transitions alike, and a search by
backtracking comes to the same outcome in it as in the automaton itself. -/
theorem find?_removeEpsilon {g : Automaton} {i : Nat} (hg : g.HasHistory)
    (initial : g.initial = some i) (tag : Nat) :
    ∃ h, g.removeEpsilon tag = .ok h ∧ h.hasSigma = false ∧
      (h.liveTransitions.map (·.1.toEdge)).Nodup ∧
        ∀ input, h.find? .nfa input = g.find? .nfa input := by
  obtain ⟨h, removed, without⟩ := removeEpsilon_spec hg.intact initial tag
  refine ⟨h, removed, ?_, ?_, ?_⟩
  · unfold hasSigma
    rw [List.any_eq_false]
    rintro ⟨t, n⟩ ht
    simp [(without.conditions t.source t (without.intact.outgoing_of_live ht)).1]
  · rw [removeEpsilon_eq tag initial] at removed
    cases removed
    rw [liveTransitions_build]
    exact nodup_distinct _
  · exact (mirrors_removeEpsilon hg.intact initial removed Nested.probe).find?_eq hg.intact
      without.intact

/-- Two states that sigma transitions join, the second with two equal checks that run `forked`. -/
def entangled : Automaton :=
  (Graph.empty 1).replay [.addState, .addState, .addState, .setInitial ⟨1, 0⟩,
    .setAccepting ⟨1, 2⟩, .addTransition ⟨1, 0⟩ ⟨1, 1⟩ .sigma,
    .addTransition ⟨1, 1⟩ ⟨1, 0⟩ .sigma,
    .addTransition ⟨1, 1⟩ ⟨1, 2⟩ (.check (.of forked) .dfa false),
    .addTransition ⟨1, 1⟩ ⟨1, 2⟩ (.check (.of forked) .dfa false)]

theorem hasHistory_entangled : entangled.HasHistory := ⟨1, _, rfl⟩

theorem closure_entangled : entangled.closure 0 = [0, 1] := by
  have targets : entangled.sigmaTargets 0 = [1] ∧ entangled.sigmaTargets 1 = [0] := ⟨rfl, rfl⟩
  obtain ⟨one, first⟩ : ∃ seen, (Marks.empty entangled.states.size).mark? 0 = some seen :=
    Marks.exists_mark? (by decide) (Marks.contains_empty 0)
  have marked (k : Nat) := Marks.contains_iff_of_mark? (j := k) first
  simp only [Marks.contains_empty, Bool.false_eq_true, or_false] at marked
  obtain ⟨two, second⟩ : ∃ seen, one.mark? 1 = some seen :=
    Marks.exists_mark? (by decide) (by simp [← Bool.not_eq_true, marked])
  have known : two.mark? 0 = none := Marks.mark?_eq_none_iff.mpr fun _ =>
    (Marks.contains_iff_of_mark? second).mpr (.inr ((marked 0).mpr rfl))
  rw [closure, closureFrom_new _ first, targets.1, List.singleton_append,
    closureFrom_new _ second, targets.2, List.singleton_append, closureFrom_old _ known,
    closureFrom_nil]

/-- The first check fails, and the search with it. -/
theorem backtrack_entangled :
    entangled.backtrack Nested.probe false ['a'] = .error (.ambiguous 0 0) := by
  have closed : entangled.closed 0 = ⟨false, [⟨⟨1, 2, .check (.of forked) .dfa false⟩, false⟩,
      ⟨⟨1, 2, .check (.of forked) .dfa false⟩, false⟩]⟩ := by
    rw [Graph.closed, closure_entangled]
    rfl
  obtain ⟨seen, new⟩ : ∃ seen, (Marks.empty (entangled.states.size * (['a'].length + 1))).mark?
      (0 * entangled.states.size + 0) = some seen :=
    Marks.exists_mark? (by decide) (Marks.contains_empty _)
  change explore entangled.closures Nested.probe false (Marks.empty _) none
    [.enter 0 ⟨0, ['a']⟩] = _
  rw [explore_enter (by decide) new, closed]
  simp only [Bool.false_eq_true, if_false, List.map_cons, List.cons_append]
  rw [explore, if_neg (by decide)]
  simp only [Condition.step, probe_forked]
  rfl

theorem find?_removeEpsilon_entangled : entangled.HasHistory ∧ entangled.initial = some 0 ∧
    entangled.hasSigma = true ∧
      entangled.find? .nfa (.ofText "a") = .error (.ambiguous 0 0) ∧
        ∃ h, entangled.removeEpsilon 2 = .ok h ∧ h.hasSigma = false ∧
          h.find? .nfa (.ofText "a") = .error (.ambiguous 0 0) := by
  obtain ⟨h, removed, free, -, same⟩ := find?_removeEpsilon hasHistory_entangled rfl 2
  have failed : entangled.find? .nfa (.ofText "a") = .error (.ambiguous 0 0) :=
    find?_of_error (window?_ofText "a")
      ((search_nfa hasHistory_entangled.intact _ _).trans backtrack_entangled)
  exact ⟨hasHistory_entangled, rfl, rfl, failed, h, removed, free, (same _).trans failed⟩

end PatternAutomata.Graph
