import PatternAutomata.Proofs.Subsets
import Mathlib.Data.List.ProdSigma
import Mathlib.Data.List.Sublists

/-!
# The run of the subset construction

All nodes that the construction comes to fit the automaton, and there are no more of those than it
may expand (`length_le_nodeBound`). In the end all nodes are therefore expanded, in the order in
which leaves first lead to them (`expandAll_spec`).
-/
namespace PatternAutomata.Graph

variable {ν : Type} [DecidableEq ν] [Hashable ν]

omit [DecidableEq ν] [Hashable ν] in
theorem mem_decide {i : Nat} {found : Bool} {decided : List (Nat × Bool)} {d : Nat × Bool} :
    d ∈ decide i found decided ↔ d = (i, found) ∨ d ∈ decided := by
  induction decided with
  | nil => simp [decide]
  | cons e rest ih =>
    unfold decide
    split
    · simp
    · rw [List.mem_cons, ih, List.mem_cons]
      exact or_left_comm

omit [DecidableEq ν] [Hashable ν] in
theorem pairwise_decide {i : Nat} {found : Bool} {decided : List (Nat × Bool)}
    (rise : decided.Pairwise fun d e => d.1 < e.1) (new : ∀ d ∈ decided, d.1 ≠ i) :
    (decide i found decided).Pairwise fun d e => d.1 < e.1 := by
  induction decided with
  | nil => simp [decide]
  | cons e rest ih =>
    obtain ⟨first, rise'⟩ := List.pairwise_cons.mp rise
    unfold decide
    split
    · next before =>
      refine List.pairwise_cons.mpr ⟨fun d hd => ?_, rise⟩
      rcases List.mem_cons.mp hd with rfl | hd
      · exact before
      · exact Nat.lt_trans before (first d hd)
    · next behind =>
      have ne := new e (List.mem_cons_self ..)
      refine List.pairwise_cons.mpr ⟨fun d hd => ?_, ih rise' fun d hd => new d (by simp [hd])⟩
      rcases mem_decide.mp hd with rfl | hd
      · simp only
        omega
      · exact first d hd

/-- A node that the construction can come to. -/
structure Fits (g : Graph ν) (node : Node) : Prop where
  group : node.group.Pairwise (· < ·)
  live : ∀ s ∈ node.group, g.IsLive s
  decided : node.decided.Pairwise fun d e => d.1 < e.1
  bounded : ∀ d ∈ node.decided, d.1 < g.checks.length

/-- A group is part of any rising list in which all live states are. -/
theorem Fits.group_sublist {g : Graph ν} {node : Node} (fit : g.Fits node) {states : List Nat}
    (rise : states.Pairwise (· < ·)) (all : ∀ s, g.IsLive s → s ∈ states) :
    node.group.Sublist states :=
  List.sublist_of_subperm_of_pairwise
    (fit.group.nodup.subperm fun s hs => all s (fit.live s hs)) fit.group rise

/-- All ways to know the outcomes of the first `k` checks, or not to know them. -/
def outcomes : Nat → List (List (Nat × Bool))
  | 0 => [[]]
  | k + 1 => outcomes k ++ (outcomes k).map (· ++ [(k, true)]) ++
      (outcomes k).map (· ++ [(k, false)])

theorem length_outcomes (k : Nat) : (outcomes k).length = Nat.pow 3 k := by
  induction k with
  | zero => rfl
  | succ k ih =>
    have step : Nat.pow 3 (k + 1) = Nat.pow 3 k * 3 := rfl
    simp only [outcomes, List.length_append, List.length_map, ih, step]
    omega

theorem mem_outcomes {k : Nat} {decided : List (Nat × Bool)}
    (rise : decided.Pairwise fun d e => d.1 < e.1) (bounded : ∀ d ∈ decided, d.1 < k) :
    decided ∈ outcomes k := by
  induction k generalizing decided with
  | zero =>
    have : decided = [] := List.eq_nil_iff_forall_not_mem.mpr fun d hd =>
      Nat.not_lt_zero _ (bounded d hd)
    simp [outcomes, this]
  | succ k ih =>
    rcases List.eq_nil_or_concat' decided with rfl | ⟨front, d, rfl⟩
    · simp [outcomes, ih]
    · obtain ⟨rise', _, last⟩ := List.pairwise_append.mp rise
      have below (e : Nat × Bool) (he : e ∈ front) : e.1 < d.1 := last e he d (by simp)
      have hd : d.1 < k + 1 := bounded d (by simp)
      by_cases e : d.1 = k
      · have member : front ∈ outcomes k := ih rise' fun e' he => e ▸ below e' he
        obtain ⟨i, found⟩ := d
        cases e
        cases found <;> simp [outcomes, member]
      · have member : front ++ [d] ∈ outcomes k := ih rise fun e' he => by
          rcases List.mem_append.mp he with he | he
          · have := below e' he
            omega
          · rw [List.mem_singleton.mp he]
            omega
        simp [outcomes, member]

omit [DecidableEq ν] [Hashable ν] in
/-- Nodes are counted by the states of their groups and by the checks that may be decided. -/
theorem length_le_groups_outcomes {nodes : List Node} (once : nodes.Nodup) {states : List Nat}
    {k : Nat} (groups : ∀ node ∈ nodes, node.group.Sublist states)
    (decided : ∀ node ∈ nodes, node.decided ∈ outcomes k) :
    nodes.length ≤ Nat.pow 2 states.length * Nat.pow 3 k := by
  let all : List Node := (states.sublists' ×ˢ outcomes k).map fun p => ⟨p.1, p.2⟩
  have count : all.length = Nat.pow 2 states.length * Nat.pow 3 k := by
    simp only [all, List.length_map, List.length_product, List.length_sublists', length_outcomes]
    rfl
  have subset : nodes ⊆ all := by
    intro node hn
    refine List.mem_map.mpr ⟨(node.group, node.decided), List.mem_product.mpr ⟨?_, ?_⟩, rfl⟩
    · exact List.mem_sublists'.mpr (groups node hn)
    · exact decided node hn
  exact count ▸ (once.subperm subset).length_le

/-- There are at most as many fitting nodes as the construction may expand. -/
theorem length_le_nodeBound {g : Graph ν} {nodes : List Node} (once : nodes.Nodup)
    (fits : ∀ node ∈ nodes, g.Fits node) : nodes.length ≤ g.nodeBound := by
  have bound : nodes.length ≤
      Nat.pow 2 (List.range g.states.size).length * Nat.pow 3 g.checks.length :=
    length_le_groups_outcomes once
      (fun node hn => (fits node hn).group_sublist List.pairwise_lt_range
        fun s hs => List.mem_range.mpr hs.lt)
      (fun node hn => mem_outcomes (fits node hn).decided (fits node hn).bounded)
  rw [List.length_range] at bound
  exact bound

section
variable {g : Graph ν} {M : Checks ν} {node : Node}

theorem place?_lt_checks (known : g.Known M) {k : ν × Mode} {i : Nat}
    (h : M.place? k = some i) : i < g.checks.length := by
  have subset : M.keys.toList ⊆ g.checks := fun l hl => (known l hl).mem_checks
  have := ((Numbering.nodup_keys M).subperm subset).length_le
  have lt := Numbering.place?_lt h
  rw [Array.length_toList] at this
  exact Nat.lt_of_lt_of_le lt this

theorem mem_undecidedOf {i : Nat} : i ∈ g.undecidedOf M node ↔
    (∃ s ∈ node.group, ∃ t ∈ g.outgoing s, ∃ k, t.condition.check? = some k ∧
      M.place? k = some i) ∧ ∀ d ∈ node.decided, d.1 ≠ i := by
  simp only [undecidedOf, List.mem_filter, List.mem_filterMap, List.mem_flatMap,
    Option.bind_eq_some_iff, Bool.not_eq_true', List.any_eq_false, beq_iff_eq]
  refine and_congr_left fun _ => ?_
  constructor
  · rintro ⟨t, ⟨s, hs, ht⟩, k, hk⟩
    exact ⟨s, hs, t, ht, k, hk⟩
  · rintro ⟨s, hs, t, ht, k, hk⟩
    exact ⟨t, ⟨s, hs, ht⟩, k, hk⟩

omit [DecidableEq ν] [Hashable ν] in
theorem mem_consumingOf {s : CharSet} {n : Nat} : (s, n) ∈ g.consumingOf node ↔
    ∃ r ∈ node.group, ∃ t ∈ g.outgoing r, t.condition.charSet? = some s ∧ t.target = n := by
  simp only [consumingOf, List.mem_filterMap, List.mem_flatMap, Option.map_eq_some_iff,
    Prod.mk.injEq]
  constructor
  · rintro ⟨t, ⟨r, hr, ht⟩, _, hs, rfl, target⟩
    exact ⟨r, hr, t, ht, hs, target⟩
  · rintro ⟨r, hr, t, ht, hs, target⟩
    exact ⟨t, ⟨r, hr, ht⟩, s, hs, rfl, target⟩

/-- The three kinds of leaves. -/
theorem leaf_cases {l : Condition ν × Node} (h : l ∈ g.leavesOf M node) :
    (l = (.sigma, ⟨g.groupIn M node.decided (g.sigmaOf node), node.decided⟩) ∧
      g.sigmaOf node ≠ []) ∨
    (∃ i ∈ g.undecidedOf M node, ∃ k found, M.place? k = some i ∧
      l = g.outcomeOf M node i k found) ∨
    (g.undecidedOf M node = [] ∧
      ∃ a ∈ atoms (g.consumingOf node), l = (.ofSet a.1, ⟨a.2, []⟩)) := by
  rcases List.mem_append.mp h with h | h
  · unfold sigmaLeaves at h
    split at h
    · cases h
    · next some =>
      exact .inl ⟨List.mem_singleton.mp h, fun none => some (by simp [none])⟩
  · refine .inr ?_
    split at h
    · next i first =>
      have hi := List.min?_mem first
      split at h
      · cases h
      · next k hk =>
        have place := Numbering.place?_eq_some_iff.mpr hk
        simp only [List.mem_cons, List.not_mem_nil, or_false] at h
        exact .inl ⟨i, hi, k, h.elim (⟨_, place, ·⟩) (⟨_, place, ·⟩)⟩
    · next none =>
      obtain ⟨a, ha, rfl⟩ := List.mem_map.mp h
      exact .inr ⟨List.min?_eq_none_iff.mp none, a, ha, rfl⟩

theorem fits_leaf (hg : g.Intact) (known : g.Known M) (fit : g.Fits node) {l : Condition ν × Node}
    (h : l ∈ g.leavesOf M node) : g.Fits l.2 := by
  have live {decided : List (Nat × Bool)} {states : List Nat} (hs : ∀ s ∈ states, g.IsLive s)
      (n : Nat) (hn : n ∈ g.groupIn M decided states) : g.IsLive n := by
    obtain ⟨_, s, mem, reach⟩ := mem_groupIn.mp hn
    exact reach.isLive hg (hs s mem)
  rcases leaf_cases h with ⟨rfl, _⟩ | ⟨i, hi, k, found, place, rfl⟩ | ⟨_, a, ha, rfl⟩
  · refine ⟨pairwise_groupIn, live fun n hn => ?_, fit.decided, fit.bounded⟩
    obtain ⟨_, _, t, ht, _, rfl⟩ := mem_sigmaOf.mp hn
    exact hg.isLive_target ht
  · refine ⟨pairwise_groupIn, live fit.live, pairwise_decide fit.decided (mem_undecidedOf.mp hi).2,
      fun d hd => ?_⟩
    rcases mem_decide.mp hd with rfl | hd
    · exact place?_lt_checks known place
    · exact fit.bounded d hd
  · obtain ⟨_, ⟨c, hc⟩, targets⟩ := mem_of_mem_atoms ha
    have same := (targets c).mp hc
    refine ⟨same ▸ pairwise_rising _, fun n hn => ?_, .nil, by simp⟩
    obtain ⟨s, hs, _⟩ := mem_targetsOf.mp (same ▸ hn)
    obtain ⟨_, _, t, ht, _, rfl⟩ := mem_consumingOf.mp hs
    exact hg.isLive_target ht

/-- The edges of some nodes, numbered from a number on. -/
noncomputable def edgesOf (g : Graph ν) (M : Checks ν) (N : Numbering Node) (next : Nat)
    (nodes : List Node) : List (Edge ν) :=
  (nodes.zipIdx next).flatMap fun p => (g.leavesOf M p.1).map (edgeTo N p.2)

/-- The first construction has become the second one by the expansion of some nodes, the first of
which has the number `next`. -/
structure Run (g : Graph ν) (b b' : Subsets ν) (next : Nat) (done : List Node) : Prop where
  extends_checks : b.checks.Extends b'.checks
  nodes : b'.nodes = withLeaves b.nodes (done.flatMap (g.leavesOf b'.checks))
  edges : ∀ N, b'.nodes.Extends N →
    b'.edges.toList = b.edges.toList ++ g.edgesOf b'.checks N next done
  fits : ∀ node ∈ b'.nodes.keys.toList, g.Fits node
  known : g.Known b'.checks
  met : ∀ node ∈ done, ∀ s ∈ node.group, ∀ t ∈ g.outgoing s, ∀ k, t.condition.check? = some k →
    k ∈ b'.checks.keys.toList
  found : ∀ {j node}, b'.nodes.keys[j]? = some node → b.nodes.size ≤ j →
    ∃ q < j, ∃ parent, b'.nodes.keys[q]? = some parent ∧
      ∃ l ∈ g.leavesOf b'.checks parent, l.2 = node

namespace Run

variable {b b' : Subsets ν} {next : Nat} {done : List Node}

theorem extends_nodes (h : Run g b b' next done) : b.nodes.Extends b'.nodes :=
  h.nodes ▸ extends_withLeaves

theorem nil (fits : ∀ node ∈ b.nodes.keys.toList, g.Fits node) (known : g.Known b.checks) :
    Run g b b next [] := by
  refine ⟨.refl _, rfl, fun _ _ => by simp [edgesOf], fits, known, by simp, ?_⟩
  intro j node hj le
  have lt := (Array.getElem?_eq_some_iff.mp hj).1
  exact absurd lt (Nat.not_lt.mpr le)

/-- One more node is expanded in front of the others. -/
theorem cons (hg : g.Intact) (live : ∀ s ∈ node.group, g.IsLive s)
    (key : b.nodes.keys[next]? = some node)
    (h : Run g (expand g b next node) b' (next + 1) done) : Run g b b' next (node :: done) := by
  have first := expand_spec hg live h.extends_checks
  have grown := first.linked.extends_nodes
  refine ⟨first.extends_checks.trans h.extends_checks, ?_, fun N ext => ?_, h.fits, h.known, ?_,
    ?_⟩
  · rw [h.nodes, first.linked.nodes, List.flatMap_cons, withLeaves, withLeaves, withLeaves,
      List.foldl_append]
  · rw [h.edges N ext, first.linked.edges N (h.extends_nodes.trans ext), List.append_assoc]
    simp only [edgesOf, List.zipIdx_cons, List.flatMap_cons]
  · exact List.forall_mem_cons.mpr
      ⟨fun s hs t ht k hk => h.extends_checks.mem (first.met s hs t ht k hk), h.met⟩
  · intro j other hj le
    by_cases later : (expand g b next node).nodes.size ≤ j
    · exact h.found hj later
    · -- The node was numbered by this very expansion.
      have lt := (Array.getElem?_eq_some_iff.mp key).1
      have here : (expand g b next node).nodes.keys[j]? = some other :=
        Numbering.place?_eq_some_iff.mp (h.extends_nodes.place?_of_lt
          (Numbering.place?_eq_some_iff.mpr hj) (Nat.not_le.mp later))
      have new : other ∉ b.nodes.keys.toList := by
        intro old
        obtain ⟨i, hi⟩ := List.mem_iff_getElem?.mp old
        have place := grown _ _ (Numbering.place?_eq_some_iff.mpr (Array.getElem?_toList ▸ hi))
        rw [Numbering.place?_eq_some_iff.mpr here] at place
        have same : j = i := Option.some.inj place
        have bound := (List.getElem?_eq_some_iff.mp hi).1
        rw [Array.length_toList] at bound
        exact Nat.not_lt.mpr le (same ▸ bound)
      have member := List.mem_of_getElem? (Array.getElem?_toList.trans here)
      rw [first.linked.nodes] at member
      refine ⟨next, Nat.lt_of_lt_of_le lt le, node, (grown.trans h.extends_nodes).key key, ?_⟩
      exact (mem_withLeaves.mp member).resolve_left new

end Run

theorem fits_expand (hg : g.Intact) {b : Subsets ν} (source : Nat) (fit : g.Fits node)
    (fits : ∀ node ∈ b.nodes.keys.toList, g.Fits node) (known : g.Known b.checks) :
    (∀ n ∈ (expand g b source node).nodes.keys.toList, g.Fits n) ∧
      g.Known (expand g b source node).checks := by
  have step := expand_spec hg fit.live (Numbering.Extends.refl (expand g b source node).checks)
  refine ⟨fun n hn => ?_, step.known known⟩
  rw [step.linked.nodes] at hn
  rcases mem_withLeaves.mp hn with hn | ⟨l, hl, rfl⟩
  · exact fits n hn
  · exact fits_leaf hg (step.known known) fit hl

/-- The construction expands nodes in the order of their numbers, until there are no more or it
may not expand more. -/
theorem expandFrom_spec (hg : g.Intact) (fuel : Nat) {next : Nat} {b : Subsets ν}
    (hb : next ≤ b.nodes.size) (fits : ∀ node ∈ b.nodes.keys.toList, g.Fits node)
    (known : g.Known b.checks) :
    ∃ done rest, (g.expandFrom fuel next b).nodes.keys.toList.drop next = done ++ rest ∧
      (rest = [] ∨ done.length = fuel) ∧ Run g b (g.expandFrom fuel next b) next done := by
  induction fuel generalizing next b with
  | zero => exact ⟨[], _, rfl, .inr rfl, .nil fits known⟩
  | succ fuel ih =>
    rw [expandFrom]
    cases hn : b.nodes.keys[next]? with
    | none =>
      refine ⟨[], [], ?_, .inl rfl, .nil fits known⟩
      rw [Array.getElem?_eq_none_iff] at hn
      simpa using hn
    | some node =>
      simp only
      have fit : g.Fits node := fits node (List.mem_of_getElem? (Array.getElem?_toList.trans hn))
      obtain ⟨fits', known'⟩ := fits_expand hg next fit fits known
      have step := expand_spec hg fit.live (Numbering.Extends.refl (expand g b next node).checks)
      have grown := step.linked.extends_nodes
      have lt : next + 1 ≤ (expand g b next node).nodes.size :=
        (Array.getElem?_eq_some_iff.mp (grown.key hn)).1
      obtain ⟨done, rest, parts, ended, run⟩ := ih lt fits' known'
      refine ⟨node :: done, rest, ?_, ended.imp_right fun e => by simp [e], run.cons hg fit.live hn⟩
      have key := (grown.trans run.extends_nodes).key hn
      rw [List.cons_append, ← parts, Numbering.drop_keys key]

theorem keys_start (i : Nat) : (Subsets.start i : Subsets ν).nodes.keys.toList = [⟨[i], []⟩] :=
  distinct_eq_self (List.nodup_singleton _)

theorem fits_start {i : Nat} (hi : g.IsLive i) :
    ∀ node ∈ (Subsets.start i : Subsets ν).nodes.keys.toList, g.Fits node := by
  rw [keys_start, List.forall_mem_singleton]
  exact ⟨List.pairwise_singleton .., by simpa using hi, .nil, by simp⟩

theorem known_start (g : Graph ν) (i : Nat) : g.Known (Subsets.start i : Subsets ν).checks := by
  intro k hk
  simp [Subsets.start, Numbering.empty] at hk

/-- The construction that starts from a live state comes to an end when all nodes are expanded. -/
theorem expandAll_spec (hg : g.Intact) {i : Nat} (hi : g.IsLive i) :
    let b := g.expandFrom g.nodeBound 0 (.start i)
    Run g (.start i) b 0 b.nodes.keys.toList := by
  intro b
  obtain ⟨done, rest, parts, ended, run⟩ := expandFrom_spec hg g.nodeBound
    (Nat.zero_le _) (fits_start hi) (known_start g i)
  have all : b.nodes.keys.toList = done := by
    rcases ended with rfl | full
    · simpa using parts
    · have bound := length_le_nodeBound (Numbering.nodup_keys b.nodes) run.fits
      have len : b.nodes.keys.toList.length = done.length + rest.length := by
        rw [← List.length_append, ← parts, List.drop_zero]
      have none : rest = [] := List.eq_nil_of_length_eq_zero (by omega)
      simpa [none] using parts
  exact all ▸ run

end

end PatternAutomata.Graph
