import PatternAutomata.Proofs.Built
import PatternAutomata.Proofs.SingleWay
import PatternAutomata.Proofs.SubsetRun

/-!
# The deterministic automaton accepts the same

The invariant of the construction has two halves. Every node is closed under the checks that its
outcomes let pass (`saturated_of_mem`), and outcomes are true where a run comes to their node
(`Holds`). Consuming a character forgets all outcomes. A state therefore accepts what the states of
its group accept (`ends_iff`), and in an automaton without sigma transitions at most one transition
applies (`single`).
-/
namespace PatternAutomata.Graph

variable {ν : Type} [DecidableEq ν] [Hashable ν]

/-- An automaton is built from a finished subset construction that started in the state `i`. -/
structure Determined (g d : Graph ν) (i : Nat) (b : Subsets ν) : Prop where
  intact : g.Intact
  start : g.IsLive i
  run : Run g (.start i) b 0 b.nodes.keys.toList
  graph : ∃ tag, d = build tag (b.nodes.keys.toList.map fun node => node.group.any g.isAccepting)
    b.edges.toList (some 0)

theorem determinize_spec {g : Graph ν} (hg : g.Intact) {i : Nat} (initial : g.initial = some i)
    (tag : Nat) : ∃ d b, g.determinize tag = .ok d ∧ Determined g d i b := by
  have live := hg.initial_live i initial
  refine ⟨_, _, ?_, hg, live, expandAll_spec hg live, tag, rfl⟩
  rw [determinize, initial]

namespace Determined

variable {g d : Graph ν} {i j : Nat} {b : Subsets ν} {node : Node}

theorem leaf_mem (h : Determined g d i b) (hn : node ∈ b.nodes.keys.toList)
    {l : Condition ν × Node} (hl : l ∈ g.leavesOf b.checks node) : l.2 ∈ b.nodes.keys.toList := by
  rw [h.run.nodes]
  exact mem_withLeaves.mpr (.inr ⟨l, List.mem_flatMap.mpr ⟨node, hn, hl⟩, rfl⟩)

theorem key_start (h : Determined g d i b) : b.nodes.keys[0]? = some ⟨[i], []⟩ := by
  refine h.run.extends_nodes.key ?_
  rw [← Array.getElem?_toList, keys_start]
  rfl

theorem mem_start (h : Determined g d i b) : ⟨[i], []⟩ ∈ b.nodes.keys.toList :=
  List.mem_of_getElem? (Array.getElem?_toList.trans h.key_start)

theorem edges_eq (h : Determined g d i b) :
    b.edges.toList = g.edgesOf b.checks b.nodes 0 b.nodes.keys.toList := by
  rw [h.run.edges _ (.refl _)]
  rfl

theorem joins (h : Determined g d i b) : Joins (b.nodes.keys.toList.map fun node =>
    node.group.any g.isAccepting).length b.edges.toList := by
  intro e he
  rw [h.edges_eq] at he
  obtain ⟨⟨node, j⟩, hp, he⟩ := List.mem_flatMap.mp he
  obtain ⟨l, hl, rfl⟩ := List.mem_map.mp he
  have hj := List.mem_zipIdx_iff_getElem?.mp hp
  obtain ⟨target, ht⟩ := Option.isSome_iff_exists.mp
    (Numbering.place?_isSome_iff.mpr (h.leaf_mem (List.mem_of_getElem? hj) hl))
  rw [List.length_map]
  refine ⟨(List.getElem?_eq_some_iff.mp hj).1, ?_⟩
  rw [edgeTo, ht]
  exact Array.length_toList ▸ Numbering.place?_lt ht

theorem isLive_iff (h : Determined g d i b) :
    d.IsLive j ↔ ∃ node, b.nodes.keys[j]? = some node := by
  obtain ⟨tag, rfl⟩ := h.graph
  rw [isLive_build, List.length_map, Array.length_toList]
  exact ⟨fun lt => ⟨_, Array.getElem?_eq_getElem lt⟩,
    fun ⟨_, hj⟩ => (Array.getElem?_eq_some_iff.mp hj).1⟩

theorem initial (h : Determined g d i b) : d.initial = some 0 := by
  obtain ⟨tag, rfl⟩ := h.graph
  rfl

theorem intact_graph (h : Determined g d i b) : d.Intact := by
  obtain ⟨tag, rfl⟩ := id h.graph
  refine intact_build h.joins fun s hs => ?_
  cases hs
  rw [List.length_map, Array.length_toList]
  exact (Array.getElem?_eq_some_iff.mp h.key_start).1

/-- The transitions that leave a state are the leaves of its node. -/
theorem outgoing_eq (h : Determined g d i b) (hj : b.nodes.keys[j]? = some node) :
    d.outgoing j = (g.leavesOf b.checks node).map fun l => ⟨edgeTo b.nodes j l, false⟩ := by
  have hj' : b.nodes.keys.toList[j]? = some node := Array.getElem?_toList.trans hj
  have own : b.edges.toList.filter (fun e => e.source == j) =
      (g.leavesOf b.checks node).map (edgeTo b.nodes j) := by
    have split := filter_source_flatMap
      (f := fun p : Node × Nat => (g.leavesOf b.checks p.1).map (edgeTo b.nodes p.2))
      (fun p e he => by
        obtain ⟨l, _, rfl⟩ := List.mem_map.mp he
        rfl) b.nodes.keys.toList 0 j
    rw [h.edges_eq, edgesOf]
    simpa [hj'] using split
  obtain ⟨tag, rfl⟩ := id h.graph
  rw [outgoing_build h.joins, own, List.map_map]
  rfl

theorem isAccepting_iff (h : Determined g d i b) (hj : b.nodes.keys[j]? = some node) :
    d.isAccepting j = true ↔ ∃ s ∈ node.group, g.isAccepting s = true := by
  have hj' : b.nodes.keys.toList[j]? = some node := Array.getElem?_toList.trans hj
  obtain ⟨tag, rfl⟩ := h.graph
  rw [isAccepting_build, List.getElem?_map, hj']
  simp

/-- The edge to a leaf leads to the node of the leaf. -/
theorem key_target (h : Determined g d i b) (hj : b.nodes.keys[j]? = some node)
    {l : Condition ν × Node} (hl : l ∈ g.leavesOf b.checks node) :
    b.nodes.keys[(edgeTo b.nodes j l).target]? = some l.2 := by
  have member := h.leaf_mem (List.mem_of_getElem? (Array.getElem?_toList.trans hj)) hl
  obtain ⟨target, ht⟩ := Option.isSome_iff_exists.mp (Numbering.place?_isSome_iff.mpr member)
  rw [edgeTo, ht]
  exact Numbering.place?_eq_some_iff.mp ht

/-- Every move is by a leaf. -/
theorem moves_iff (h : Determined g d i b) (hj : b.nodes.keys[j]? = some node) {probe : Probe ν}
    {u : List Char} {c : Config} : d.Moves probe (j, u) c ↔ ∃ l ∈ g.leavesOf b.checks node,
      b.nodes.keys[c.1]? = some l.2 ∧ l.1.Leads probe u c.2 := by
  rw [Moves, h.outgoing_eq hj]
  constructor
  · rintro ⟨t, ht, target, leads⟩
    obtain ⟨l, hl, rfl⟩ := List.mem_map.mp ht
    exact ⟨l, hl, target ▸ h.key_target hj hl, leads⟩
  · rintro ⟨l, hl, hc, leads⟩
    refine ⟨_, List.mem_map_of_mem hl, ?_, leads⟩
    have hp := Numbering.place?_eq_some_iff.mpr (h.key_target hj hl)
    exact Option.some.inj (hp.symm.trans (Numbering.place?_eq_some_iff.mpr hc))

end Determined

/-- The decided outcomes are true in front of a text. -/
def Holds (M : Checks ν) (probe : Probe ν) (u : List Char) (decided : List (Nat × Bool)) : Prop :=
  ∀ d ∈ decided, ∃ k : ν × Mode, M.place? k = some d.1 ∧ probe k.1 k.2 u = .ok d.2

section
variable {g : Graph ν} {M : Checks ν} {probe : Probe ν} {u : List Char}
  {decided : List (Nat × Bool)}

omit [DecidableEq ν] [Hashable ν] in
theorem passes_iff {i : Nat} {negated : Bool} :
    passes decided i negated = true ↔ (i, !negated) ∈ decided := by
  simp only [passes, List.any_eq_true, Bool.and_eq_true, beq_iff_eq, bne_iff_ne, ne_eq]
  constructor
  · rintro ⟨⟨k, found⟩, hd, rfl, ne⟩
    have : found = !negated := by cases found <;> cases negated <;> simp_all
    exact this ▸ hd
  · exact fun hd => ⟨_, hd, rfl, by cases negated <;> simp⟩

theorem Opens.leads (holds : Holds M probe u decided) {t : Transition ν}
    (h : Opens M decided t) : t.condition.Leads probe u u := by
  obtain ⟨nested, mode, negated, i, hc, place, pass⟩ := h
  obtain ⟨k, hk, answer⟩ := holds _ (passes_iff.mp pass)
  have same : k = (nested, mode) := Numbering.eq_of_place? hk place
  subst same
  rw [hc]
  exact ⟨rfl, answer⟩

theorem PassReaches.runs (holds : Holds M probe u decided) {s n : Nat}
    (h : g.PassReaches M decided s n) : g.Runs probe (s, u) (n, u) := by
  induction h with
  | refl => exact .refl
  | tail _ step ih =>
    obtain ⟨t, ht, opens, rfl⟩ := step
    exact ih.tail ⟨t, ht, rfl, opens.leads holds⟩

theorem Holds.decide (holds : Holds M probe u decided) {i : Nat} {k : ν × Mode} {found : Bool}
    (place : M.place? k = some i) (answer : probe k.1 k.2 u = .ok found) :
    Holds M probe u (Graph.decide i found decided) := by
  intro d hd
  rcases mem_decide.mp hd with rfl | hd
  · exact ⟨k, place, answer⟩
  · exact holds d hd

/-- A node holds all states that passing checks lead to from its states. -/
def Saturated (g : Graph ν) (M : Checks ν) (node : Node) : Prop :=
  ∀ s ∈ node.group, ∀ t ∈ g.outgoing s, Opens M node.decided t → t.target ∈ node.group

theorem saturated_groupIn (hg : g.Intact) {states : List Nat} :
    g.Saturated M ⟨g.groupIn M decided states, decided⟩ := by
  intro s hs t ht opens
  obtain ⟨_, r, hr, reach⟩ := mem_groupIn.mp hs
  exact mem_groupIn.mpr ⟨(hg.isLive_target ht).lt, r, hr, reach.tail ⟨t, ht, opens, rfl⟩⟩

theorem saturated_leaf (hg : g.Intact) {node : Node} {l : Condition ν × Node}
    (h : l ∈ g.leavesOf M node) : g.Saturated M l.2 := by
  rcases leaf_cases h with ⟨rfl, _⟩ | ⟨i, _, k, found, _, rfl⟩ | ⟨_, a, _, rfl⟩
  · exact saturated_groupIn hg
  · exact saturated_groupIn hg
  · rintro s hs t ht ⟨_, _, _, _, _, _, pass⟩
    cases pass

omit [DecidableEq ν] [Hashable ν] in
theorem length_decide (i : Nat) (found : Bool) (decided : List (Nat × Bool)) :
    (decide i found decided).length = decided.length + 1 := by
  induction decided with
  | nil => rfl
  | cons d rest ih =>
    unfold decide
    split
    · rfl
    · simp [ih]

theorem Fits.length_decided_le {node : Node} (fit : g.Fits node) :
    node.decided.length ≤ g.checks.length := by
  have once : (node.decided.map Prod.fst).Nodup :=
    (List.pairwise_map.mpr fit.decided : (node.decided.map Prod.fst).Pairwise (· < ·)).nodup
  have subset : node.decided.map Prod.fst ⊆ List.range g.checks.length := fun n hn => by
    obtain ⟨d, hd, rfl⟩ := List.mem_map.mp hn
    exact List.mem_range.mpr (fit.bounded d hd)
  simpa using (once.subperm subset).length_le

end

omit [DecidableEq ν] [Hashable ν] in
theorem sigmaOf_eq_nil {g : Graph ν} (free : ∀ s, ∀ t ∈ g.outgoing s, t.condition.isSigma = false)
    (node : Node) : g.sigmaOf node = [] := by
  refine List.eq_nil_iff_forall_not_mem.mpr fun n hn => ?_
  obtain ⟨s, _, t, ht, sigma, _⟩ := mem_sigmaOf.mp hn
  cases (free s t ht).symm.trans sigma

/-- Without sigma transitions a node asks for the outcome of a check, or goes on by characters. -/
theorem leavesOf_cases {g : Graph ν} {M : Checks ν} {node : Node} (none : g.sigmaOf node = []) :
    (∃ n ∈ g.undecidedOf M node, ∃ k, M.place? k = some n ∧
      g.leavesOf M node = [g.outcomeOf M node n k true, g.outcomeOf M node n k false]) ∨
    g.leavesOf M node = (atoms (g.consumingOf node)).map fun a => (.ofSet a.1, ⟨a.2, []⟩) := by
  rw [leavesOf, sigmaLeaves, none, List.isEmpty_nil, if_pos rfl, List.nil_append]
  cases first : (g.undecidedOf M node).min? with
  | none => exact .inr rfl
  | some n =>
    have hn := List.min?_mem first
    obtain ⟨k, hk⟩ := exists_key_of_undecided hn
    simp only [hk]
    exact .inl ⟨n, hn, k, Numbering.place?_eq_some_iff.mpr hk, rfl⟩

/-- A node with an undecided check has a leaf for each outcome of one. -/
theorem exists_outcomes {g : Graph ν} {M : Checks ν} {node : Node}
    (more : g.undecidedOf M node ≠ []) : ∃ n k, M.place? k = some n ∧
      ∀ found, g.outcomeOf M node n k found ∈ g.leavesOf M node := by
  obtain ⟨n, first⟩ := Option.isSome_iff_exists.mp (List.isSome_min?_of_ne_nil more)
  obtain ⟨k, hk⟩ := exists_key_of_undecided (List.min?_mem first)
  refine ⟨n, k, Numbering.place?_eq_some_iff.mpr hk, fun found => List.mem_append_right _ ?_⟩
  rw [first]
  simp only [hk]
  cases found <;> simp

omit [DecidableEq ν] [Hashable ν] in
theorem Answers.suffix {g : Graph ν} {probe : Probe ν} {u v : List Char} (h : g.Answers probe u)
    (hv : v <:+ u) : g.Answers probe v :=
  fun s t ht nested mode negated hc w hw => h s t ht nested mode negated hc w (hw.trans hv)

namespace Determined

variable {g d : Graph ν} {i j : Nat} {b : Subsets ν} {node : Node} {probe : Probe ν}
  {u v : List Char}

theorem saturated_of_mem (h : Determined g d i b) (hn : node ∈ b.nodes.keys.toList) :
    g.Saturated b.checks node := by
  rw [h.run.nodes] at hn
  rcases mem_withLeaves.mp hn with hn | ⟨l, hl, rfl⟩
  · rw [keys_start, List.mem_singleton] at hn
    subst hn
    rintro s hs t ht ⟨_, _, _, _, _, _, pass⟩
    cases pass
  · obtain ⟨n, _, hl⟩ := List.mem_flatMap.mp hl
    exact saturated_leaf h.intact hl

/-- The nested automata of the numbered checks answer where those of the given automaton do. -/
theorem exists_answer (h : Determined g d i b) (answers : g.Answers probe u) {k : ν × Mode}
    {n : Nat} (place : b.checks.place? k = some n) : ∃ found, probe k.1 k.2 u = .ok found := by
  obtain ⟨s, t, ht, hk⟩ := h.run.known k
    (Numbering.place?_isSome_iff.mp (Option.isSome_of_eq_some place))
  obtain ⟨negated, hc⟩ := Condition.check?_eq_some hk
  exact answers s t ht _ _ _ hc u List.suffix_rfl

/-- A move keeps outcomes true, and what it comes to can be reached from the group it leaves. -/
theorem moves_sound (h : Determined g d i b) (hj : b.nodes.keys[j]? = some node)
    (holds : Holds b.checks probe u node.decided) {c : Config} (move : d.Moves probe (j, u) c) :
    ∃ next, b.nodes.keys[c.1]? = some next ∧ Holds b.checks probe c.2 next.decided ∧
      ∀ s' ∈ next.group, ∃ s ∈ node.group, g.Runs probe (s, u) (s', c.2) := by
  obtain ⟨j', u'⟩ := c
  obtain ⟨l, hl, hc, leads⟩ := (h.moves_iff hj).mp move
  refine ⟨l.2, hc, ?_⟩
  rcases leaf_cases hl with ⟨rfl, _⟩ | ⟨n, _, k, found, place, rfl⟩ | ⟨_, a, ha, rfl⟩
  · cases leads
    refine ⟨holds, fun s' hs' => ?_⟩
    obtain ⟨_, r, hr, reach⟩ := mem_groupIn.mp hs'
    obtain ⟨s, hs, t, ht, sigma, target⟩ := mem_sigmaOf.mp hr
    have first : g.SigmaReaches s r := .single (mem_sigmaTargets.mpr ⟨t, ht, sigma, target⟩)
    exact ⟨s, hs, (first.runs _).trans (reach.runs holds)⟩
  · obtain ⟨same, answer⟩ := leads
    cases same
    have holds' := holds.decide place (by simpa using answer)
    refine ⟨holds', fun s' hs' => ?_⟩
    obtain ⟨_, s, hs, reach⟩ := mem_groupIn.mp hs'
    exact ⟨s, hs, reach.runs holds'⟩
  · obtain ⟨x, hx, rfl⟩ := Condition.leads_ofSet.mp leads
    refine ⟨fun d hd => by simp at hd, fun s' hs' => ?_⟩
    obtain ⟨_, _, targets⟩ := mem_of_mem_atoms ha
    obtain ⟨set, hset, hxs⟩ := mem_targetsOf.mp ((targets x).mp hx ▸ hs')
    obtain ⟨s, hs, t, ht, hcs, rfl⟩ := mem_consumingOf.mp hset
    exact ⟨s, hs, .single ⟨t, ht, rfl, (Condition.leads_iff_of_charSet hcs).mpr ⟨x, hxs, rfl⟩⟩⟩

theorem fits (h : Determined g d i b) (hj : b.nodes.keys[j]? = some node) : g.Fits node :=
  h.run.fits node (List.mem_of_getElem? (Array.getElem?_toList.trans hj))

/-- Every leaf can be moved to where its condition leads on. -/
theorem exists_move (h : Determined g d i b) (hj : b.nodes.keys[j]? = some node)
    {l : Condition ν × Node} (hl : l ∈ g.leavesOf b.checks node) (leads : l.1.Leads probe u v) :
    ∃ j', b.nodes.keys[j']? = some l.2 ∧ d.Moves probe (j, u) (j', v) := by
  have member := h.leaf_mem (List.mem_of_getElem? (Array.getElem?_toList.trans hj)) hl
  obtain ⟨j', hj'⟩ := Option.isSome_iff_exists.mp (Numbering.place?_isSome_iff.mpr member)
  have key := Numbering.place?_eq_some_iff.mp hj'
  exact ⟨j', key, (h.moves_iff hj).mpr ⟨l, hl, key, leads⟩⟩

/-- As long as nothing is decided, no check is. -/
theorem undecided_of_check (h : Determined g d i b) (hn : node ∈ b.nodes.keys.toList)
    (none : node.decided = []) {s : Nat} (hs : s ∈ node.group) {t : Transition ν}
    (ht : t ∈ g.outgoing s) {k : ν × Mode} (hk : t.condition.check? = some k) :
    g.undecidedOf b.checks node ≠ [] := by
  have met : k ∈ b.checks.keys.toList := h.run.met node hn s hs t ht k hk
  obtain ⟨n, place⟩ := Option.isSome_iff_exists.mp (Numbering.place?_isSome_iff.mpr met)
  refine List.ne_nil_of_mem (mem_undecidedOf.mpr ⟨⟨s, hs, t, ht, k, hk, place⟩, ?_⟩)
  rw [none]
  exact fun d hd => absurd hd List.not_mem_nil

/-- A check that is undecided is decided by one move. -/
theorem exists_decision (h : Determined g d i b) (answers : g.Answers probe u)
    (hj : b.nodes.keys[j]? = some node) (holds : Holds b.checks probe u node.decided)
    (more : g.undecidedOf b.checks node ≠ []) :
    ∃ j' next, b.nodes.keys[j']? = some next ∧ d.Moves probe (j, u) (j', u) ∧
      Holds b.checks probe u next.decided ∧ (∀ s ∈ node.group, s ∈ next.group) ∧
        next.decided.length = node.decided.length + 1 := by
  obtain ⟨n, k, place, leaf⟩ := exists_outcomes more
  obtain ⟨found, answer⟩ := h.exists_answer answers place
  have leads : (g.outcomeOf b.checks node n k found).1.Leads probe u u := by
    refine ⟨rfl, ?_⟩
    rw [Bool.not_not]
    exact answer
  obtain ⟨j', key, move⟩ := h.exists_move hj (leaf found) leads
  refine ⟨j', _, key, move, holds.decide place answer, ?_, length_decide ..⟩
  intro s hs
  exact mem_groupIn.mpr ⟨((h.fits hj).live s hs).lt, s, hs, .refl⟩

/-- Decisions lead to a node at which no check is left undecided. -/
theorem settle (h : Determined g d i b) (answers : g.Answers probe u)
    (hj : b.nodes.keys[j]? = some node) (holds : Holds b.checks probe u node.decided) :
    ∃ j' next, b.nodes.keys[j']? = some next ∧ d.Runs probe (j, u) (j', u) ∧
      Holds b.checks probe u next.decided ∧ (∀ s ∈ node.group, s ∈ next.group) ∧
        g.undecidedOf b.checks next = [] := by
  -- each decision adds an outcome, and there are no more outcomes than checks
  obtain ⟨free, hfree⟩ := Nat.exists_eq_add_of_le (h.fits hj).length_decided_le
  induction free generalizing j node with
  | zero =>
    refine ⟨j, node, hj, .refl, holds, fun _ => id, ?_⟩
    by_contra more
    obtain ⟨_, next, hj', _, _, _, len⟩ := h.exists_decision answers hj holds more
    have := (h.fits hj').length_decided_le
    omega
  | succ free ih =>
    by_cases none : g.undecidedOf b.checks node = []
    · exact ⟨j, node, hj, .refl, holds, fun _ => id, none⟩
    · obtain ⟨j', next, hj', move, holds', sub, len⟩ := h.exists_decision answers hj holds none
      obtain ⟨j'', last, hj'', run, holds'', sub', done⟩ := ih hj' holds' (by omega)
      exact ⟨j'', last, hj'', run.head move, holds'', fun s hs => sub' s (sub s hs), done⟩

/-- Consuming is followed by the atom of the character. -/
theorem consuming_complete (h : Determined g d i b) (hj : b.nodes.keys[j]? = some node)
    (done : g.undecidedOf b.checks node = []) {s : Nat} (hs : s ∈ node.group) {t : Transition ν}
    (ht : t ∈ g.outgoing s) {set : CharSet} (hset : t.condition.charSet? = some set)
    (leads : t.condition.Leads probe u v) : ∃ j' next, b.nodes.keys[j']? = some next ∧
      d.Moves probe (j, u) (j', v) ∧ Holds b.checks probe v next.decided ∧
        t.target ∈ next.group := by
  obtain ⟨x, hx, rfl⟩ := (Condition.leads_iff_of_charSet hset).mp leads
  have target : t.target ∈ targetsOf (g.consumingOf node) x :=
    mem_targetsOf.mpr ⟨set, mem_consumingOf.mpr ⟨s, hs, t, ht, hset, rfl⟩, hx⟩
  obtain ⟨a, ha⟩ := exists_atom (List.ne_nil_of_mem target)
  have leaf : (.ofSet a, ⟨targetsOf (g.consumingOf node) x, []⟩) ∈ g.leavesOf b.checks node := by
    refine List.mem_append_right _ ?_
    rw [done]
    exact List.mem_map.mpr ⟨_, ha, rfl⟩
  have inside : x ∈ a := ((mem_of_mem_atoms ha).2.2 x).mpr rfl
  obtain ⟨j', key, move⟩ := h.exists_move hj leaf (Condition.leads_ofSet.mpr ⟨x, inside, rfl⟩)
  refine ⟨j', _, key, move, ?_, target⟩
  intro d hd
  cases hd

theorem sigma_complete (h : Determined g d i b) (hj : b.nodes.keys[j]? = some node) {s : Nat}
    (hs : s ∈ node.group) {t : Transition ν} (ht : t ∈ g.outgoing s)
    (sigma : t.condition.isSigma = true) : ∃ j' next, b.nodes.keys[j']? = some next ∧
      d.Moves probe (j, u) (j', u) ∧ next.decided = node.decided ∧ t.target ∈ next.group := by
  have target : t.target ∈ g.sigmaOf node := mem_sigmaOf.mpr ⟨s, hs, t, ht, sigma, rfl⟩
  have leaf : (.sigma, ⟨g.groupIn b.checks node.decided (g.sigmaOf node), node.decided⟩) ∈
      g.leavesOf b.checks node := by
    refine List.mem_append_left _ ?_
    rw [sigmaLeaves, if_neg (by simpa using List.ne_nil_of_mem target)]
    exact List.mem_singleton_self _
  obtain ⟨j', key, move⟩ := h.exists_move (u := u) (v := u) hj leaf rfl
  have live := h.intact.isLive_target ht
  exact ⟨j', _, key, move, rfl, mem_groupIn.mpr ⟨live.lt, _, target, .refl⟩⟩

/-- A check that passes leads inside the group, where no check is undecided. -/
theorem check_complete (h : Determined g d i b) (hj : b.nodes.keys[j]? = some node)
    (holds : Holds b.checks probe u node.decided) (done : g.undecidedOf b.checks node = [])
    {s : Nat} (hs : s ∈ node.group) {t : Transition ν} (ht : t ∈ g.outgoing s) {nested : ν}
    {mode : Mode} {negated : Bool} (hc : t.condition = .check nested mode negated)
    (answer : probe nested mode u = .ok !negated) : t.target ∈ node.group := by
  have member := List.mem_of_getElem? (Array.getElem?_toList.trans hj)
  have hk : t.condition.check? = some (nested, mode) := by
    rw [hc]
    rfl
  obtain ⟨n, place⟩ := Option.isSome_iff_exists.mp
    (Numbering.place?_isSome_iff.mpr (h.run.met node member s hs t ht _ hk))
  have decided : ∃ d ∈ node.decided, d.1 = n := by
    by_contra new
    push Not at new
    have undecided := mem_undecidedOf.mpr ⟨⟨s, hs, t, ht, _, hk, place⟩, new⟩
    simp [done] at undecided
  obtain ⟨⟨_, found⟩, hd, rfl⟩ := decided
  obtain ⟨k, hk', answer'⟩ := holds _ hd
  have same : k = (nested, mode) := Numbering.eq_of_place? hk' place
  subst same
  have outcome : found = !negated := Except.ok.inj (answer'.symm.trans answer)
  have opens : Opens b.checks node.decided t :=
    ⟨nested, mode, negated, _, hc, place, passes_iff.mpr (outcome ▸ hd)⟩
  exact h.saturated_of_mem member s hs t ht opens

/-- What moves from a state of a group is followed from a node without undecided checks. -/
theorem moves_complete (h : Determined g d i b) (hj : b.nodes.keys[j]? = some node)
    (holds : Holds b.checks probe u node.decided) (done : g.undecidedOf b.checks node = [])
    {s : Nat} (hs : s ∈ node.group) {c : Config} (move : g.Moves probe (s, u) c) :
    ∃ j' next, b.nodes.keys[j']? = some next ∧ d.Runs probe (j, u) (j', c.2) ∧
      Holds b.checks probe c.2 next.decided ∧ c.1 ∈ next.group := by
  obtain ⟨s', v⟩ := c
  obtain ⟨t, ht, rfl, leads⟩ := move
  have consuming {set : CharSet} (hset : t.condition.charSet? = some set) :
      ∃ j' next, b.nodes.keys[j']? = some next ∧ d.Runs probe (j, u) (j', v) ∧
        Holds b.checks probe v next.decided ∧ t.target ∈ next.group := by
    obtain ⟨j', next, key, step, holds', target⟩ :=
      h.consuming_complete hj done hs ht hset leads
    exact ⟨j', next, key, .single step, holds', target⟩
  cases hc : t.condition with
  | char c => exact consuming (by rw [hc]; rfl)
  | set set => exact consuming (by rw [hc]; rfl)
  | sigma =>
    obtain ⟨j', next, key, step, same, target⟩ :=
      h.sigma_complete (u := u) hj hs ht (by rw [hc]; rfl)
    rw [hc] at leads
    cases leads
    exact ⟨j', next, key, .single step, same ▸ holds, target⟩
  | check nested mode negated =>
    rw [hc] at leads
    obtain ⟨same, answer⟩ := leads
    cases same
    exact ⟨j, node, hj, .refl, holds, h.check_complete hj holds done hs ht hc answer⟩

/-- A state accepts what the states of its group accept. -/
theorem ends_iff (h : Determined g d i b) (answers : g.Answers probe u)
    (hj : b.nodes.keys[j]? = some node) (holds : Holds b.checks probe u node.decided) :
    d.Ends probe j u v ↔ ∃ s ∈ node.group, g.Ends probe s u v := by
  constructor
  · rintro ⟨r, run, accepting⟩
    generalize ha : (j, u) = a at run
    clear answers
    induction run using Relation.ReflTransGen.head_induction_on generalizing j u node with
    | refl =>
      cases ha
      obtain ⟨s, hs, accepting⟩ := (h.isAccepting_iff hj).mp accepting
      exact ⟨s, hs, s, .refl, accepting⟩
    | head move _ ih =>
      subst ha
      obtain ⟨next, hnext, holds', sound⟩ := h.moves_sound hj holds move
      obtain ⟨s', hs', r', run', accepting'⟩ := ih hnext holds' rfl
      obtain ⟨s, hs, first⟩ := sound s' hs'
      exact ⟨s, hs, r', first.trans run', accepting'⟩
  · rintro ⟨s, hs, r, run, accepting⟩
    generalize ha : (s, u) = a at run
    induction run using Relation.ReflTransGen.head_induction_on generalizing j u node s with
    | refl =>
      cases ha
      exact ⟨j, .refl, (h.isAccepting_iff hj).mpr ⟨_, hs, accepting⟩⟩
    | @head a c move _ ih =>
      subst ha
      obtain ⟨j', next, hj', run, holds', sub, done⟩ := h.settle answers hj holds
      obtain ⟨j'', last, hj'', run', holds'', member⟩ :=
        h.moves_complete hj' holds' done (sub s hs) move
      obtain ⟨t, _, _, leads⟩ := id move
      obtain ⟨r', run'', accepting'⟩ := ih (answers.suffix leads.suffix) hj'' holds'' _ member rfl
      exact ⟨r', (run.trans run').trans run'', accepting'⟩

/-- The initial state stands for the initial state. -/
theorem ends_start (h : Determined g d i b) (answers : g.Answers probe u) :
    d.Ends probe 0 u v ↔ g.Ends probe i u v := by
  have holds : Holds b.checks probe u (⟨[i], []⟩ : Node).decided := by
    intro d hd
    cases hd
  simp only [h.ends_iff answers h.key_start holds, List.mem_singleton, exists_eq_left]

/-- The deterministic automaton accepts where the given one does. -/
theorem accepts_iff (h : Determined g d i b) (initial : g.initial = some i)
    (answers : g.Answers probe u) {pos : Nat} : d.Accepts probe u pos ↔ g.Accepts probe u pos := by
  rw [accepts_iff_of_ends h.initial fun _ => h.ends_start answers,
    accepts_iff_of_ends initial fun _ => Iff.rfl]

/-- What leaves a state are the leaves of a node. -/
theorem exists_leaf (h : Determined g d i b) {t : Transition ν} (ht : t ∈ d.outgoing j) :
    ∃ node, b.nodes.keys[j]? = some node ∧ ∃ l ∈ g.leavesOf b.checks node, t.condition = l.1 := by
  obtain ⟨node, hj⟩ := h.isLive_iff.mp (h.intact_graph.isLive_source ht)
  rw [h.outgoing_eq hj] at ht
  obtain ⟨l, hl, rfl⟩ := List.mem_map.mp ht
  exact ⟨node, hj, l, hl, rfl⟩

theorem answers (h : Determined g d i b) (answers : g.Answers probe u) : d.Answers probe u := by
  intro j t ht nested mode negated hc v hv
  obtain ⟨node, hj, l, hl, same⟩ := h.exists_leaf ht
  rcases leaf_cases hl with ⟨rfl, _⟩ | ⟨n, _, k, found, place, rfl⟩ | ⟨_, a, _, rfl⟩
  · cases same.symm.trans hc
  · cases same.symm.trans hc
    exact h.exists_answer (answers.suffix hv) place
  · have consuming : (Condition.ofSet a.1 : Condition ν).check? = none := by
      unfold Condition.ofSet
      split <;> rfl
    cases (congrArg Condition.check? (hc.symm.trans same)).trans consuming

theorem outgoing_eq_nil (h : Determined g d i b) (hj : b.nodes.keys[j]? = none) :
    d.outgoing j = [] := by
  apply List.eq_nil_iff_forall_not_mem.mpr
  intro t ht
  obtain ⟨node, key, -⟩ := h.exists_leaf ht
  cases hj.symm.trans key

/-- No two leaves of a node lead on in the same place, sigma transitions apart. -/
theorem pairwise_leaves (probe : Probe ν) (free : g.sigmaOf node = []) :
    (g.leavesOf b.checks node).Pairwise
      fun l m => ∀ u v w, ¬ (l.1.Leads probe u v ∧ m.1.Leads probe u w) := by
  rcases leavesOf_cases free with ⟨n, -, k, -, leaves⟩ | leaves
  · rw [leaves]
    refine List.pairwise_pair.mpr fun u v w => ?_
    rintro ⟨⟨_, yes⟩, _, no⟩
    cases yes.symm.trans no
  · rw [leaves, List.pairwise_map]
    refine (apart_atoms (g.consumingOf node)).imp fun {a a'} apart u v w both => ?_
    obtain ⟨x, hx, rfl⟩ := Condition.leads_ofSet.mp both.1
    obtain ⟨y, hy, e⟩ := Condition.leads_ofSet.mp both.2
    cases e
    exact apart.2 x ⟨hx, hy⟩

/-- Without sigma transitions at most one transition applies, wherever a search comes. -/
theorem single (h : Determined g d i b)
    (free : ∀ s, ∀ t ∈ g.outgoing s, t.condition.isSigma = false) {window : List Char}
    (answers : g.Answers probe window) (earliest : Bool) :
    d.Single probe earliest window 0 := by
  rintro ⟨j, u⟩ reach -
  have inside : u <:+ window := (Advances.runs reach).suffix
  refine ⟨fun t ht => ?_, ?_⟩
  · refine (h.answers answers j t ht).step ?_ inside
    obtain ⟨node, _, l, hl, same⟩ := h.exists_leaf ht
    rw [same]
    rcases leaf_cases hl with ⟨_, some⟩ | ⟨n, _, k, found, _, rfl⟩ | ⟨_, a, _, rfl⟩
    · exact absurd (sigmaOf_eq_nil free node) some
    · rfl
    · unfold Condition.ofSet
      split <;> rfl
  · cases hn : b.nodes.keys[j]? with
    | none =>
      rw [h.outgoing_eq_nil hn]
      exact .nil
    | some node =>
      rw [h.outgoing_eq hn, List.pairwise_map]
      refine (pairwise_leaves probe (sigmaOf_eq_nil free node)).imp fun {l m} apart => ?_
      rintro ⟨⟨q, hq⟩, r, hr⟩
      exact apart _ _ _ ⟨(Condition.step_eq_some_iff.mp hq).2.1,
        (Condition.step_eq_some_iff.mp hr).2.1⟩

end Determined

end PatternAutomata.Graph
