import PatternAutomata.Automaton.Determinized
import PatternAutomata.Proofs.Atoms
import PatternAutomata.Proofs.Intact
import PatternAutomata.Proofs.SigmaClosure

/-!
# Steps of the subset construction

Checks and nodes are numbered while the construction goes on. Seen from later numbers, each node
has the leaves that `leavesOf` tells, and expanding it adds edges to these leaves and nothing else
(`expand_spec`).
-/
namespace PatternAutomata

namespace Marks

variable {n : Nat}

theorem mem_toList {m : Marks n} {i : Nat} : i ∈ m.toList ↔ m.contains i = true := by
  simp [toList, contains]

theorem pairwise_toList (m : Marks n) : m.toList.Pairwise (· < ·) := by
  have trans (a b c : Nat) : decide (a ≤ b) → decide (b ≤ c) → decide (a ≤ c) := by
    simpa using Nat.le_trans
  have total (a b : Nat) : decide (a ≤ b) || decide (b ≤ a) := by
    simpa using Nat.le_total a b
  have sorted : m.toList.Pairwise (· ≤ ·) := by
    simpa [toList] using List.pairwise_mergeSort trans total m.marked.toList
  have once : m.toList.Nodup := by
    refine (List.mergeSort_perm ..).nodup_iff.mpr ?_
    simpa [List.Nodup] using m.marked.distinct_toList
  exact sorted.imp₂ (fun _ _ h k => Nat.lt_of_le_of_ne h k) once

end Marks

namespace Condition

variable {ν : Type}

/-- The nested automaton that a condition runs, and how. -/
def check? : Condition ν → Option (ν × Mode)
  | check nested mode _ => some (nested, mode)
  | _ => none

theorem check?_eq_some {c : Condition ν} {nested : ν} {mode : Mode}
    (h : c.check? = some (nested, mode)) : ∃ negated, c = check nested mode negated := by
  cases c with
  | check nested mode negated =>
    cases h
    exact ⟨negated, rfl⟩
  | char c => cases h
  | set s => cases h
  | sigma => cases h

end Condition

namespace Graph

variable {ν : Type} [DecidableEq ν] [Hashable ν]

theorem contains_markNew {n : Nat} {m : Marks n} {ss : List Nat} {i : Nat} :
    (markNew m ss).1.contains i = true ↔ m.contains i = true ∨ i ∈ ss ∧ i < n := by
  induction ss generalizing m with
  | nil => simp [markNew]
  | cons s rest ih =>
    unfold markNew
    split
    · next old =>
      rw [ih, List.mem_cons]
      have : i = s → i < n → m.contains i = true := fun e lt =>
        e ▸ Marks.mark?_eq_none_iff.mp old (e ▸ lt)
      tauto
    · next m' new =>
      have := (Marks.lt_of_mark? new).1
      rw [ih, Marks.contains_iff_of_mark? new, List.mem_cons]
      by_cases e : i = s
      · subst e
        tauto
      · tauto

theorem mem_markNew {n : Nat} {m : Marks n} {ss : List Nat} {i : Nat} :
    i ∈ (markNew m ss).2 ↔ m.contains i = false ∧ i ∈ ss ∧ i < n := by
  induction ss generalizing m with
  | nil => simp [markNew]
  | cons s rest ih =>
    unfold markNew
    split
    · next old =>
      rw [ih, List.mem_cons]
      have : i = s → i < n → m.contains i = true := fun e lt =>
        e ▸ Marks.mark?_eq_none_iff.mp old (e ▸ lt)
      cases h : m.contains i with
      | true => simp
      | false =>
        have : i ≠ s ∨ ¬ i < n := by
          by_contra k
          push Not at k
          cases h.symm.trans (this k.1 k.2)
        tauto
    · next m' new =>
      obtain ⟨lt, free⟩ := Marks.lt_of_mark? new
      have grown : m'.contains i = false ↔ i ≠ s ∧ m.contains i = false := by
        simp only [← Bool.not_eq_true, Marks.contains_iff_of_mark? new, not_or]
      rw [List.mem_append, ih, grown, List.mem_singleton, List.mem_cons]
      by_cases e : i = s
      · subst e
        simp [lt, free]
      · simp [e]

/-- A check that leaves some state of an automaton. -/
def Meets (g : Graph ν) (k : ν × Mode) : Prop :=
  ∃ s, ∃ t ∈ g.outgoing s, t.condition.check? = some k

/-- Only checks of the automaton are numbered. -/
def Known (g : Graph ν) (checks : Checks ν) : Prop := ∀ k ∈ checks.keys.toList, g.Meets k

omit [DecidableEq ν] [Hashable ν] in
theorem mem_transitions_of_outgoing {g : Graph ν} {s : Nat} {t : Transition ν}
    (h : t ∈ g.outgoing s) : t ∈ g.transitions.toList := by
  unfold outgoing at h
  split at h
  · obtain ⟨i, _, hi⟩ := List.mem_filterMap.mp h
    exact List.mem_of_getElem? (Array.getElem?_toList.trans hi)
  · cases h

theorem Meets.mem_checks {g : Graph ν} {k : ν × Mode} (h : g.Meets k) : k ∈ g.checks := by
  obtain ⟨s, t, ht, hk⟩ := h
  refine mem_distinct.mpr (List.mem_filterMap.mpr ⟨t, mem_transitions_of_outgoing ht, ?_⟩)
  revert hk
  cases t.condition <;> simp [Condition.check?]

/-- The decided outcomes let the check of a transition pass. -/
def Opens (M : Checks ν) (decided : List (Nat × Bool)) (t : Transition ν) : Prop :=
  ∃ nested mode negated i, t.condition = .check nested mode negated ∧
    M.place? (nested, mode) = some i ∧ passes decided i negated = true

section
variable {checks M : Checks ν} {decided : List (Nat × Bool)} {t : Transition ν}
  {ts : List (Transition ν)} {nested : ν} {mode : Mode} {negated : Bool}

theorem passing_check (h : t.condition = .check nested mode negated) :
    passing decided checks (t :: ts) =
      let c := checks.number (nested, mode)
      let rest := passing decided c.1 ts
      (rest.1, if passes decided c.2 negated then t.target :: rest.2 else rest.2) := by
  simp only [passing, h]

theorem passing_other (h : t.condition.check? = none) :
    passing decided checks (t :: ts) = passing decided checks ts := by
  cases hc : t.condition with
  | check nested mode negated => simp [hc, Condition.check?] at h
  | char c => simp only [passing, hc]
  | set s => simp only [passing, hc]
  | sigma => simp only [passing, hc]

theorem numbers_check (h : t.condition = .check nested mode negated) :
    numbers checks (t :: ts) =
      let c := checks.number (nested, mode)
      let rest := numbers c.1 ts
      (rest.1, c.2 :: rest.2) := by
  simp only [numbers, h]

theorem numbers_other (h : t.condition.check? = none) :
    numbers checks (t :: ts) = numbers checks ts := by
  cases hc : t.condition with
  | check nested mode negated => simp [hc, Condition.check?] at h
  | char c => simp only [numbers, hc]
  | set s => simp only [numbers, hc]
  | sigma => simp only [numbers, hc]

theorem extends_numbers : checks.Extends (numbers checks ts).1 := by
  induction ts generalizing checks with
  | nil => exact .refl _
  | cons t rest ih =>
    cases hc : t.condition.check? with
    | none =>
      rw [numbers_other hc]
      exact ih
    | some k =>
      obtain ⟨negated, hc⟩ := Condition.check?_eq_some hc
      rw [numbers_check hc]
      exact (Numbering.extends_number checks _).trans ih

theorem mem_keys_numbers {k : ν × Mode} : k ∈ (numbers checks ts).1.keys.toList ↔
    k ∈ checks.keys.toList ∨ ∃ t ∈ ts, t.condition.check? = some k := by
  induction ts generalizing checks with
  | nil => simp [numbers]
  | cons t rest ih =>
    rw [List.exists_mem_cons_iff]
    cases hc : t.condition.check? with
    | none => simp [numbers_other hc, ih]
    | some l =>
      obtain ⟨negated, e⟩ := Condition.check?_eq_some hc
      rw [numbers_check e, ih, Numbering.mem_keys_number, Option.some.injEq, eq_comm (a := l)]
      exact or_assoc

/-- Passing numbers the same checks, whatever is decided. -/
theorem fst_passing : (passing decided checks ts).1 = (numbers checks ts).1 := by
  induction ts generalizing checks with
  | nil => rfl
  | cons t rest ih =>
    cases hc : t.condition.check? with
    | none => rw [passing_other hc, numbers_other hc, ih]
    | some k =>
      obtain ⟨negated, hc⟩ := Condition.check?_eq_some hc
      rw [passing_check hc, numbers_check hc]
      exact ih

theorem extends_passing : checks.Extends (passing decided checks ts).1 := by
  rw [fst_passing]
  exact extends_numbers

theorem mem_keys_passing {k : ν × Mode} : k ∈ (passing decided checks ts).1.keys.toList ↔
    k ∈ checks.keys.toList ∨ ∃ t ∈ ts, t.condition.check? = some k := by
  rw [fst_passing]
  exact mem_keys_numbers

theorem opens_check (h : t.condition = .check nested mode negated) {i : Nat}
    (place : M.place? (nested, mode) = some i) :
    Opens M decided t ↔ passes decided i negated = true := by
  constructor
  · rintro ⟨_, _, _, _, e, place', pass⟩
    cases h.symm.trans e
    exact Option.some.inj (place.symm.trans place') ▸ pass
  · exact fun pass => ⟨nested, mode, negated, i, h, place, pass⟩

theorem not_opens (h : t.condition.check? = none) : ¬ Opens M decided t := by
  rintro ⟨_, _, _, _, e, _⟩
  rw [e] at h
  cases h

/-- The targets of passing checks, seen from a later numbering. -/
theorem mem_passing (h : (passing decided checks ts).1.Extends M) {n : Nat} :
    n ∈ (passing decided checks ts).2 ↔ ∃ t ∈ ts, Opens M decided t ∧ t.target = n := by
  induction ts generalizing checks with
  | nil => simp [passing]
  | cons t rest ih =>
    rw [List.exists_mem_cons_iff]
    cases hc : t.condition.check? with
    | none =>
      rw [passing_other hc] at h ⊢
      rw [ih h]
      exact (or_iff_right fun k => not_opens hc k.1).symm
    | some k =>
      obtain ⟨negated, e⟩ := Condition.check?_eq_some hc
      rw [passing_check e] at h ⊢
      have place : M.place? k = some (checks.number k).2 :=
        (extends_passing.trans h) _ _ (Numbering.place?_number ..)
      rw [opens_check e place, ← ih h]
      simp only
      split
      · next pass => simp [pass, eq_comm]
      · next shut => simp [shut]

/-- The numbers of checks, seen from a later numbering. -/
theorem numbers_eq (h : (numbers checks ts).1.Extends M) :
    (numbers checks ts).2 = ts.filterMap fun t => t.condition.check?.bind M.place? := by
  induction ts generalizing checks with
  | nil => rfl
  | cons t rest ih =>
    cases hc : t.condition.check? with
    | none =>
      rw [numbers_other hc] at h ⊢
      rw [List.filterMap_cons_none (by simp [hc]), ih h]
    | some k =>
      obtain ⟨negated, e⟩ := Condition.check?_eq_some hc
      rw [numbers_check e] at h ⊢
      have place : M.place? k = some (checks.number k).2 :=
        (extends_numbers.trans h) _ _ (Numbering.place?_number ..)
      rw [List.filterMap_cons_some (b := (checks.number k).2) (by simp [hc, place]), ← ih h]

end

/-- Passing checks lead from one state to another. -/
def PassReaches (g : Graph ν) (M : Checks ν) (decided : List (Nat × Bool)) : Nat → Nat → Prop :=
  Relation.ReflTransGen fun s n => ∃ t ∈ g.outgoing s, Opens M decided t ∧ t.target = n

section
variable {g : Graph ν} {checks M : Checks ν} {decided : List (Nat × Bool)}
  {group : Marks g.states.size} {pending states : List Nat}

theorem extends_closeFrom : checks.Extends (closeFrom g decided checks group pending).1 := by
  fun_induction closeFrom g decided checks group pending with
  | case1 => exact .refl _
  | case2 checks group s pending found marked ih => exact extends_passing.trans ih

theorem Known.closeFrom (h : g.Known checks) :
    g.Known (Graph.closeFrom g decided checks group pending).1 := by
  fun_induction Graph.closeFrom g decided checks group pending with
  | case1 => exact h
  | case2 checks group s pending found marked ih =>
    refine ih fun k hk => ?_
    rcases mem_keys_passing.mp hk with hk | ⟨t, ht, hk⟩
    · exact h k hk
    · exact ⟨s, t, ht, hk⟩

theorem pairwise_closeFrom : (closeFrom g decided checks group pending).2.Pairwise (· < ·) := by
  fun_induction closeFrom g decided checks group pending with
  | case1 checks group => exact Marks.pairwise_toList group
  | case2 checks group s pending found marked ih => exact ih

/-- Nothing is in a closed group but what passing checks lead to. -/
theorem passReaches_of_mem (h : (closeFrom g decided checks group pending).1.Extends M) {n : Nat}
    (hn : n ∈ (closeFrom g decided checks group pending).2) :
    group.contains n = true ∨ ∃ s ∈ pending, g.PassReaches M decided s n := by
  fun_induction closeFrom g decided checks group pending with
  | case1 checks group => exact .inl (Marks.mem_toList.mp hn)
  | case2 checks group s pending found marked ih =>
    have passed {m : Nat} (hm : m ∈ found.2) : g.PassReaches M decided s m :=
      .single ((mem_passing (extends_closeFrom.trans h)).mp hm)
    rcases ih h hn with old | ⟨m, hm, reach⟩
    · rcases contains_markNew.mp old with old | ⟨new, _⟩
      · exact .inl old
      · exact .inr ⟨s, by simp, passed new⟩
    · rcases List.mem_append.mp hm with hm | hm
      · exact .inr ⟨s, by simp, (passed (mem_markNew.mp hm).2.1).trans reach⟩
      · exact .inr ⟨m, by simp [hm], reach⟩

theorem mem_closeFrom_of_contains {n : Nat} (hn : group.contains n = true) :
    n ∈ (closeFrom g decided checks group pending).2 := by
  fun_induction closeFrom g decided checks group pending with
  | case1 checks group => exact Marks.mem_toList.mpr hn
  | case2 checks group s pending found marked ih => exact ih (contains_markNew.mpr (.inl hn))

/-- A closed group takes in what passing checks lead to from its pending and its new states. -/
theorem closed_closeFrom (h : (closeFrom g decided checks group pending).1.Extends M) :
    ∀ s ∈ (closeFrom g decided checks group pending).2, s ∈ pending ∨ group.contains s = false →
      ∀ t ∈ g.outgoing s, Opens M decided t → t.target < g.states.size →
        t.target ∈ (closeFrom g decided checks group pending).2 := by
  fun_induction closeFrom g decided checks group pending with
  | case1 checks group =>
    intro s hs new
    rw [Marks.mem_toList.mp hs] at new
    simp at new
  | case2 checks group r pending found marked ih =>
    intro s hs new t ht opens lt
    by_cases e : s = r
    · subst e
      have passed : t.target ∈ found.2 :=
        (mem_passing (extends_closeFrom.trans h)).mpr ⟨t, ht, opens, rfl⟩
      exact mem_closeFrom_of_contains (contains_markNew.mpr (.inr ⟨passed, lt⟩))
    · refine ih h s hs ?_ t ht opens lt
      rcases new with new | new
      · exact .inl (List.mem_append_right _ ((List.mem_cons.mp new).resolve_left e))
      · by_cases fresh : s ∈ marked.2
        · exact .inl (List.mem_append_left _ fresh)
        · refine .inr (Bool.eq_false_iff.mpr fun k => fresh (mem_markNew.mpr ⟨new, ?_⟩))
          exact (contains_markNew.mp k).resolve_left (by simp [new])

open Classical in
/-- The group of states that some states make up, seen from the numbers of the checks. -/
noncomputable def groupIn (g : Graph ν) (M : Checks ν) (decided : List (Nat × Bool))
    (states : List Nat) : List Nat :=
  (List.range g.states.size).filter fun n => ∃ s ∈ states, g.PassReaches M decided s n

theorem mem_groupIn {n : Nat} : n ∈ g.groupIn M decided states ↔
    n < g.states.size ∧ ∃ s ∈ states, g.PassReaches M decided s n := by
  simp [groupIn]

theorem pairwise_groupIn : (g.groupIn M decided states).Pairwise (· < ·) :=
  List.pairwise_lt_range.filter _

theorem PassReaches.isLive (hg : g.Intact) {s n : Nat} (h : g.PassReaches M decided s n)
    (hs : g.IsLive s) : g.IsLive n := by
  induction h with
  | refl => exact hs
  | tail _ step _ =>
    obtain ⟨t, ht, _, rfl⟩ := step
    exact hg.isLive_target ht

/-- Closing live states yields their group. -/
theorem close_eq (hg : g.Intact) (live : ∀ s ∈ states, g.IsLive s)
    (h : (close g decided checks states).1.Extends M) :
    (close g decided checks states).2 = g.groupIn M decided states := by
  have marked {n : Nat} : (markNew (Marks.empty g.states.size) states).1.contains n = true ↔
      n ∈ states := by
    rw [contains_markNew]
    simp only [Marks.contains_empty, Bool.false_eq_true, false_or, and_iff_left_iff_imp]
    exact fun hn => (live n hn).lt
  refine eq_of_rising pairwise_closeFrom pairwise_groupIn fun n => ?_
  rw [mem_groupIn]
  constructor
  · intro hn
    have reach : ∃ s ∈ states, g.PassReaches M decided s n := by
      rcases passReaches_of_mem h hn with old | ⟨s, hs, reach⟩
      · exact ⟨n, marked.mp old, .refl⟩
      · rw [List.mem_reverse, Marks.mem_toList] at hs
        exact ⟨s, marked.mp hs, reach⟩
    obtain ⟨s, hs, reach⟩ := id reach
    exact ⟨(reach.isLive hg (live s hs)).lt, s, hs, reach⟩
  · rintro ⟨-, s, hs, reach⟩
    induction reach with
    | refl => exact mem_closeFrom_of_contains (marked.mpr hs)
    | @tail m n _ step ih =>
      obtain ⟨t, ht, opens, rfl⟩ := step
      refine closed_closeFrom h m ih ?_ t ht opens (hg.isLive_target ht).lt
      rw [List.mem_reverse, Marks.mem_toList, ← Bool.not_eq_true]
      exact Classical.em _

theorem extends_close : checks.Extends (close g decided checks states).1 := extends_closeFrom

theorem Known.close (h : g.Known checks) : g.Known (Graph.close g decided checks states).1 :=
  h.closeFrom

end

/-- An edge to the state of a node. -/
def edgeTo (N : Numbering Node) (source : Nat) (l : Condition ν × Node) : Edge ν :=
  ⟨source, (N.place? l.2).getD 0, l.1⟩

/-- The nodes with those of some leaves. -/
def withLeaves (N : Numbering Node) (leaves : List (Condition ν × Node)) : Numbering Node :=
  leaves.foldl (fun n l => (n.number l.2).1) N

omit [DecidableEq ν] [Hashable ν] in
theorem extends_withLeaves {N : Numbering Node} {leaves : List (Condition ν × Node)} :
    N.Extends (withLeaves N leaves) := by
  induction leaves generalizing N with
  | nil => exact .refl _
  | cons l rest ih => exact (Numbering.extends_number N l.2).trans ih

omit [DecidableEq ν] [Hashable ν] in
theorem mem_withLeaves {N : Numbering Node} {leaves : List (Condition ν × Node)} {node : Node} :
    node ∈ (withLeaves N leaves).keys.toList ↔
      node ∈ N.keys.toList ∨ ∃ l ∈ leaves, l.2 = node := by
  induction leaves generalizing N with
  | nil => simp [withLeaves]
  | cons l rest ih =>
    rw [withLeaves, List.foldl_cons, ← withLeaves, ih, Numbering.mem_keys_number,
      List.exists_mem_cons_iff, or_assoc, eq_comm (a := node)]

/-- A construction is one with edges to some leaves added. -/
structure Linked (b b' : Subsets ν) (source : Nat) (leaves : List (Condition ν × Node)) : Prop where
  nodes : b'.nodes = withLeaves b.nodes leaves
  edges : ∀ N, b'.nodes.Extends N →
    b'.edges.toList = b.edges.toList ++ leaves.map (edgeTo N source)

namespace Linked

variable {b b' b'' : Subsets ν} {source : Nat} {leaves more : List (Condition ν × Node)}

theorem extends_nodes (h : Linked b b' source leaves) : b.nodes.Extends b'.nodes :=
  h.nodes ▸ extends_withLeaves

theorem nil (nodes : b'.nodes = b.nodes) (edges : b'.edges = b.edges) : Linked b b' source [] :=
  ⟨nodes, fun _ _ => by simp [edges]⟩

theorem link (c : Condition ν) (node : Node) (checks : Checks ν) :
    Linked b (Subsets.link ⟨checks, b.nodes, b.edges⟩ source c node) source [(c, node)] := by
  refine ⟨rfl, fun N h => ?_⟩
  have place : N.place? node = some (b.nodes.number node).2 :=
    h _ _ (Numbering.place?_number b.nodes node)
  simp [Subsets.link, edgeTo, place]

theorem append (h : Linked b b' source leaves) (k : Linked b' b'' source more) :
    Linked b b'' source (leaves ++ more) := by
  refine ⟨?_, fun N ext => ?_⟩
  · rw [k.nodes, h.nodes, withLeaves, withLeaves, withLeaves, List.foldl_append]
  · rw [k.edges N ext, h.edges N (k.extends_nodes.trans ext), List.map_append, List.append_assoc]

end Linked

/-- Where sigma transitions lead from the states of a node. -/
def sigmaOf (g : Graph ν) (node : Node) : List Nat :=
  (node.group.flatMap g.outgoing).filterMap fun t =>
    if t.condition.isSigma then some t.target else none

/-- The sets of characters that leave the states of a node, with their targets. -/
def consumingOf (g : Graph ν) (node : Node) : List (CharSet × Nat) :=
  (node.group.flatMap g.outgoing).filterMap fun t => t.condition.charSet?.map (·, t.target)

/-- The checks that leave the states of a node and are undecided. -/
def undecidedOf (g : Graph ν) (M : Checks ν) (node : Node) : List Nat :=
  ((node.group.flatMap g.outgoing).filterMap fun t => t.condition.check?.bind M.place?).filter
    fun i => !node.decided.any fun d => d.1 == i

section
variable {g : Graph ν} {M : Checks ν} {b : Subsets ν} {source : Nat} {node : Node}

/-- The leaf of an outcome of a check. -/
noncomputable def outcomeOf (g : Graph ν) (M : Checks ν) (node : Node) (i : Nat) (k : ν × Mode)
    (found : Bool) : Condition ν × Node :=
  (.check k.1 k.2 !found,
    ⟨g.groupIn M (decide i found node.decided) node.group, decide i found node.decided⟩)

/-- The leaf of the sigma transitions, if there are any. -/
noncomputable def sigmaLeaves (g : Graph ν) (M : Checks ν) (node : Node) :
    List (Condition ν × Node) :=
  if (g.sigmaOf node).isEmpty then []
  else [(.sigma, ⟨g.groupIn M node.decided (g.sigmaOf node), node.decided⟩)]

/-- The leaves of a node: the conditions of its edges, each with the node that it leads to. -/
noncomputable def leavesOf (g : Graph ν) (M : Checks ν) (node : Node) : List (Condition ν × Node) :=
  g.sigmaLeaves M node ++
    match (g.undecidedOf M node).min? with
    | some i =>
      match M.keys[i]? with
      | none => []
      | some k => [g.outcomeOf M node i k true, g.outcomeOf M node i k false]
    | none => (atoms (g.consumingOf node)).map fun a => (.ofSet a.1, ⟨a.2, []⟩)

omit [DecidableEq ν] [Hashable ν] in
theorem mem_sigmaOf {n : Nat} : n ∈ g.sigmaOf node ↔
    ∃ s ∈ node.group, ∃ t ∈ g.outgoing s, t.condition.isSigma = true ∧ t.target = n := by
  simp only [sigmaOf, List.mem_filterMap, List.mem_flatMap, Option.ite_none_right_eq_some,
    Option.some.injEq]
  constructor
  · rintro ⟨t, ⟨s, hs, ht⟩, sigma, target⟩
    exact ⟨s, hs, t, ht, sigma, target⟩
  · rintro ⟨s, hs, t, ht, sigma, target⟩
    exact ⟨t, ⟨s, hs, ht⟩, sigma, target⟩

theorem linkSigma_spec (hg : g.Intact)
    (h : (b.linkSigma g source node (g.sigmaOf node)).checks.Extends M) :
    Linked b (b.linkSigma g source node (g.sigmaOf node)) source (g.sigmaLeaves M node) := by
  unfold Subsets.linkSigma at h ⊢
  unfold sigmaLeaves
  split
  · exact .nil rfl rfl
  · next some =>
    rw [if_neg some] at h
    have live (n : Nat) (hn : n ∈ g.sigmaOf node) : g.IsLive n := by
      obtain ⟨_, _, t, ht, _, rfl⟩ := mem_sigmaOf.mp hn
      exact hg.isLive_target ht
    rw [← close_eq hg live h]
    exact .link ..

theorem linkOutcome_spec (hg : g.Intact) (live : ∀ s ∈ node.group, g.IsLive s) {i : Nat}
    {nested : ν} {mode : Mode} {found : Bool}
    (h : (b.linkOutcome g source node i nested mode found).checks.Extends M) :
    Linked b (b.linkOutcome g source node i nested mode found) source
      [g.outcomeOf M node i (nested, mode) found] := by
  unfold outcomeOf
  rw [← close_eq hg live h]
  exact .link ..

theorem extends_linkSigma {targets : List Nat} :
    b.checks.Extends (b.linkSigma g source node targets).checks := by
  unfold Subsets.linkSigma
  split
  · exact .refl _
  · exact extends_close

theorem extends_linkOutcome {i : Nat} {nested : ν} {mode : Mode} {found : Bool} :
    b.checks.Extends (b.linkOutcome g source node i nested mode found).checks := extends_close

theorem linkAtoms_spec {parts : List (CharSet × List Nat)} :
    let b' := parts.foldl (fun b a => b.link source (.ofSet a.1) ⟨a.2, []⟩) b
    b'.checks = b.checks ∧ Linked b b' source (parts.map fun a => (.ofSet a.1, ⟨a.2, []⟩)) := by
  induction parts generalizing b with
  | nil => exact ⟨rfl, .nil rfl rfl⟩
  | cons a rest ih =>
    obtain ⟨checks, linked⟩ := @ih (b.link source (.ofSet a.1) ⟨a.2, []⟩)
    exact ⟨checks, (Linked.link (.ofSet a.1) ⟨a.2, []⟩ b.checks).append linked⟩

/-- The construction with the checks numbered that leave the states of a node. -/
def metBy (g : Graph ν) (b : Subsets ν) (node : Node) : Subsets ν :=
  ⟨(numbers b.checks (node.group.flatMap g.outgoing)).1, b.nodes, b.edges⟩

/-- The undecided checks, by the numbers they have after they are met. -/
theorem undecidedOf_eq (h : (metBy g b node).checks.Extends M) :
    g.undecidedOf M node = (numbers b.checks (node.group.flatMap g.outgoing)).2.filter
      fun i => !node.decided.any fun d => d.1 == i := by
  rw [undecidedOf, numbers_eq h]

theorem exists_key_of_undecided {i : Nat} (hi : i ∈ g.undecidedOf M node) :
    ∃ k, M.keys[i]? = some k := by
  obtain ⟨t, _, place⟩ := List.mem_filterMap.mp (List.mem_filter.mp hi).1
  obtain ⟨k, _, place⟩ := Option.bind_eq_some_iff.mp place
  exact ⟨k, Numbering.place?_eq_some_iff.mp place⟩

/-- Undecided checks keep their numbers. -/
theorem undecidedOf_extends (h : (metBy g b node).checks.Extends M) :
    g.undecidedOf (metBy g b node).checks node = g.undecidedOf M node := by
  rw [undecidedOf_eq (.refl _), undecidedOf_eq h]

/-- The construction with the checks of a node met and its sigma transitions linked. -/
def prepared (g : Graph ν) (b : Subsets ν) (source : Nat) (node : Node) : Subsets ν :=
  (metBy g b node).linkSigma g source node (g.sigmaOf node)

theorem expand_eq : expand g b source node =
    match (g.undecidedOf (metBy g b node).checks node).min? with
    | some i =>
      match (prepared g b source node).checks.keys[i]? with
      | none => prepared g b source node
      | some k =>
        ((prepared g b source node).linkOutcome g source node i k.1 k.2 true).linkOutcome g source
          node i k.1 k.2 false
    | none => (atoms (g.consumingOf node)).foldl
        (fun b a => b.link source (.ofSet a.1) ⟨a.2, []⟩) (prepared g b source node) := by
  rw [undecidedOf_eq (.refl _)]
  obtain ⟨checks, nodes, edges⟩ := b
  simp only [expand, prepared, metBy, sigmaOf, consumingOf]
  generalize ((numbers checks (node.group.flatMap g.outgoing)).2.filter
    fun i => !node.decided.any fun d => d.1 == i).min? = first
  cases first with
  | none => rfl
  | some i =>
    simp only
    generalize Subsets.linkSigma g _ source node _ = b'
    cases b'.checks.keys[i]? with
    | none => rfl
    | some k => rfl

/-- What one expansion does to the construction. -/
structure Expanded (g : Graph ν) (M : Checks ν) (b b' : Subsets ν) (source : Nat) (node : Node) :
    Prop where
  linked : Linked b b' source (g.leavesOf M node)
  extends_checks : b.checks.Extends b'.checks
  met : ∀ s ∈ node.group, ∀ t ∈ g.outgoing s, ∀ k, t.condition.check? = some k →
    k ∈ b'.checks.keys.toList
  known : g.Known b.checks → g.Known b'.checks

theorem Known.metBy (h : g.Known b.checks) : g.Known (Graph.metBy g b node).checks := by
  intro k hk
  rcases mem_keys_numbers.mp hk with hk | ⟨t, ht, hk⟩
  · exact h k hk
  · obtain ⟨s, _, ht⟩ := List.mem_flatMap.mp ht
    exact ⟨s, t, ht, hk⟩

theorem Known.linkSigma {targets : List Nat} (h : g.Known b.checks) :
    g.Known (b.linkSigma g source node targets).checks := by
  unfold Subsets.linkSigma
  split
  · exact h
  · exact h.close

theorem Known.linkOutcome {i : Nat} {nested : ν} {mode : Mode} {found : Bool}
    (h : g.Known b.checks) :
    g.Known (b.linkOutcome g source node i nested mode found).checks := h.close

theorem expand_spec (hg : g.Intact) (live : ∀ s ∈ node.group, g.IsLive s)
    (h : (expand g b source node).checks.Extends M) :
    Expanded g M b (expand g b source node) source node := by
  have met : ∀ s ∈ node.group, ∀ t ∈ g.outgoing s, ∀ k, t.condition.check? = some k →
      k ∈ (metBy g b node).checks.keys.toList := fun s hs t ht k hk =>
    mem_keys_numbers.mpr (.inr ⟨t, List.mem_flatMap.mpr ⟨s, hs, ht⟩, hk⟩)
  have numbered : b.checks.Extends (metBy g b node).checks := extends_numbers
  have sigma : (metBy g b node).checks.Extends (prepared g b source node).checks :=
    extends_linkSigma
  have linked (ext : (prepared g b source node).checks.Extends M) :
      Linked b (prepared g b source node) source (g.sigmaLeaves M node) :=
    have linked := linkSigma_spec (b := metBy g b node) hg ext
    ⟨linked.nodes, linked.edges⟩
  rw [expand_eq] at h ⊢
  cases first : (g.undecidedOf (metBy g b node).checks node).min? with
  | some i =>
    have hi : i ∈ g.undecidedOf (prepared g b source node).checks node :=
      undecidedOf_extends sigma ▸ List.min?_mem first
    obtain ⟨k, hk⟩ := exists_key_of_undecided hi
    simp only [first, hk] at h ⊢
    have ext : (prepared g b source node).checks.Extends M :=
      extends_linkOutcome.trans (extends_linkOutcome.trans h)
    refine ⟨?_, ?_, fun s hs t ht k hk => ?_, fun known => ?_⟩
    · rw [leavesOf, ← undecidedOf_extends (sigma.trans ext), first]
      simp only [ext.key hk]
      have outcomes := (linkOutcome_spec hg live (extends_linkOutcome.trans h)).append
        (linkOutcome_spec hg live h)
      exact (linked ext).append outcomes
    · exact (numbered.trans sigma).trans (extends_linkOutcome.trans extends_linkOutcome)
    · exact (sigma.trans (extends_linkOutcome.trans extends_linkOutcome)).mem (met s hs t ht k hk)
    · exact known.metBy.linkSigma.linkOutcome.linkOutcome
  | none =>
    obtain ⟨same, outcomes⟩ := @linkAtoms_spec ν _ _ (prepared g b source node) source
      (atoms (g.consumingOf node))
    simp only [first, same] at h ⊢
    refine ⟨?_, ?_, fun s hs t ht k hk => ?_, fun known => ?_⟩
    · rw [leavesOf, ← undecidedOf_extends (sigma.trans h), first]
      exact (linked h).append outcomes
    · exact same ▸ numbered.trans sigma
    · exact same ▸ sigma.mem (met s hs t ht k hk)
    · exact same ▸ known.metBy.linkSigma

end

end Graph

end PatternAutomata
