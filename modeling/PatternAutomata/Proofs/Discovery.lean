import PatternAutomata.Proofs.Determinized
import PatternAutomata.Proofs.Ranks

/-!
# The order in which groups are discovered

Let every transition of an automaton consume a character. Then no state of its deterministic
automaton is useless, at most one transition of a state takes a given character, and the states are
numbered as a search in breadth comes to them (`breadthFirst`). The atoms of a group come in the
order of their least characters, and this is what makes the search take smaller characters first.
-/
namespace PatternAutomata.Graph

variable {ν : Type} [DecidableEq ν] [Hashable ν] {g d : Graph ν} {i j k : Nat} {b : Subsets ν}
  {node : Node} {x : Char}

/-- All leaves are atoms if every transition consumes a character. -/
theorem leavesOf_eq (consuming : g.Consuming) (M : Checks ν) :
    g.leavesOf M node = (atoms (g.consumingOf node)).map fun a => (.ofSet a.1, ⟨a.2, []⟩) := by
  have free (s : Nat) : ∀ t ∈ g.outgoing s, t.condition.isSigma = false :=
    fun t ht => Condition.isSigma_of_consuming (consuming s t ht)
  refine (leavesOf_cases (sigmaOf_eq_nil free node)).resolve_left ?_
  rintro ⟨n, hn, -⟩
  obtain ⟨⟨s, _, t, ht, k, hk, _⟩, _⟩ := mem_undecidedOf.mp hn
  have letter := consuming s t ht
  obtain ⟨negated, hc⟩ := Condition.check?_eq_some hk
  rw [hc] at letter
  cases letter

omit [DecidableEq ν] [Hashable ν] in
theorem withLeaves_ofList (ks : List Node) (leaves : List (Condition ν × Node)) :
    withLeaves (.ofList ks) leaves = .ofList (ks ++ leaves.map Prod.snd) := by
  unfold withLeaves Numbering.ofList
  rw [List.foldl_append, List.foldl_map]

namespace Determined

/-- A state sorts the characters if its leaves are atoms. -/
theorem sorts (h : Determined g d i b) (hj : b.nodes.keys[j]? = some node)
    (leaves : g.leavesOf b.checks node =
      (atoms (g.consumingOf node)).map fun a => (.ofSet a.1, ⟨a.2, []⟩)) : d.Sorts j := by
  have out := h.outgoing_eq hj
  rw [leaves, List.map_map] at out
  refine ⟨?_, ?_⟩
  · intro t ht
    rw [out] at ht
    obtain ⟨a, ha, rfl⟩ := List.mem_map.mp ht
    obtain ⟨-, ⟨y, hy⟩, -⟩ := mem_of_mem_atoms ha
    exact ⟨y, Condition.takes_ofSet.mpr hy⟩
  · rw [out, List.pairwise_map]
    refine (apart_atoms (g.consumingOf node)).imp_of_mem fun {a a'} ha ha' apart => ⟨?_, ?_⟩
    · intro same
      have key {a : CharSet × List Nat} (ha : a ∈ atoms (g.consumingOf node)) :=
        h.key_target hj (leaves ▸ List.mem_map_of_mem ha)
      have nodes := (key ha).symm.trans ((congrArg (b.nodes.keys[·]?) same).trans (key ha'))
      exact apart.1 (congrArg Node.group (Option.some.inj nodes))
    · rintro y ⟨takes, takes'⟩
      exact apart.2 y ⟨Condition.takes_ofSet.mp takes, Condition.takes_ofSet.mp takes'⟩

theorem sorts_of_consuming (h : Determined g d i b) (consuming : g.Consuming) (s : Nat) :
    d.Sorts s := by
  cases hs : b.nodes.keys[s]? with
  | none => exact .of_nil (h.outgoing_eq_nil hs)
  | some node => exact h.sorts hs (leavesOf_eq consuming b.checks)

/-- At most one transition of a state takes a given character. -/
theorem lettered (h : Determined g d i b) (consuming : g.Consuming) : d.Lettered :=
  ⟨fun s => (h.sorts_of_consuming consuming s).consuming,
    fun s => (h.sorts_of_consuming consuming s).single⟩

theorem filled (h : Determined g d i b) (consuming : g.Consuming) : d.Filled :=
  fun s => (h.sorts_of_consuming consuming s).takes

/-- A state goes on by the characters of the atoms of its group. -/
theorem goes_iff (h : Determined g d i b) (consuming : g.Consuming)
    (hj : b.nodes.keys[j]? = some node) : d.Goes j x k ↔
      ∃ a ∈ atoms (g.consumingOf node), x ∈ a.1 ∧ b.nodes.keys[k]? = some ⟨a.2, []⟩ := by
  rw [goes_iff_moves (h.lettered consuming).consuming fun _ _ _ => .ok true, h.moves_iff hj,
    leavesOf_eq consuming]
  simp only [List.mem_map, exists_exists_and_eq_and, Condition.leads_ofSet]
  constructor
  · rintro ⟨a, ha, key, y, hy, same⟩
    cases same
    exact ⟨a, ha, hy, key⟩
  · rintro ⟨a, ha, hx, key⟩
    exact ⟨a, ha, key, x, hx, rfl⟩

/-- Groups are not empty, and nothing is decided in them. -/
theorem plain_of_mem (h : Determined g d i b) (consuming : g.Consuming)
    (hn : node ∈ b.nodes.keys.toList) : node.group ≠ [] ∧ node.decided = [] := by
  rw [h.run.nodes, Subsets.start, withLeaves_ofList, Numbering.mem_ofList, List.mem_append] at hn
  rcases hn with hn | hn
  · rw [List.mem_singleton.mp hn]
    exact ⟨List.cons_ne_nil _ _, rfl⟩
  · obtain ⟨l, hl, rfl⟩ := List.mem_map.mp hn
    obtain ⟨n, _, hl⟩ := List.mem_flatMap.mp hl
    rw [leavesOf_eq consuming] at hl
    obtain ⟨a, ha, rfl⟩ := List.mem_map.mp hl
    exact ⟨(mem_of_mem_atoms ha).1, rfl⟩

/-- If every state of the automaton admits some text, so does every group of states. -/
theorem productive (h : Determined g d i b) (consuming : g.Consuming) (hg : g.Productive) :
    d.Productive := by
  intro s live
  obtain ⟨node, key⟩ := h.isLive_iff.mp live
  have member := List.mem_of_getElem? (Array.getElem?_toList.trans key)
  obtain ⟨filled, undecided⟩ := h.plain_of_mem consuming member
  obtain ⟨r, hr⟩ := List.exists_mem_of_ne_nil _ filled
  obtain ⟨w, admits⟩ := hg r ((h.fits key).live r hr)
  refine ⟨w, ?_⟩
  have answers : g.Answers (fun _ _ _ => .ok true) w := by
    intro s t _ nested mode negated _ u _
    exact ⟨true, rfl⟩
  have holds : Holds b.checks (fun _ _ _ => .ok true) w node.decided := by
    rw [undecided]
    intro p hp
    cases hp
  rw [← ends_iff_admits (h.lettered consuming).consuming (fun _ _ _ => .ok true),
    h.ends_iff answers key holds]
  exact ⟨r, hr, (ends_iff_admits consuming _).mpr admits⟩

/-- The groups in the order of their numbers are the first group and the targets of all atoms, each
where it first occurs. -/
theorem keys_eq (h : Determined g d i b) (consuming : g.Consuming) :
    b.nodes = .ofList (⟨[i], []⟩ :: b.nodes.keys.toList.flatMap fun node =>
      (atoms (g.consumingOf node)).map fun a => ⟨a.2, []⟩) := by
  have nodes := h.run.nodes
  rw [Subsets.start, withLeaves_ofList, List.map_flatMap] at nodes
  simp only [leavesOf_eq consuming, List.map_map] at nodes
  exact nodes

/-- A group in front of a target of an atom is the first one, or a target of an atom that comes no
later. -/
theorem found_before (h : Determined g d i b) (consuming : g.Consuming) {q r s : Nat}
    {other : Node} {a : CharSet × List Nat} {A B : List (CharSet × List Nat)}
    (hq : b.nodes.keys[q]? = some node) (split : atoms (g.consumingOf node) = A ++ a :: B)
    (hr : b.nodes.keys[r]? = some ⟨a.2, []⟩) (hs : b.nodes.keys[s]? = some other) (le : s ≤ r) :
    other = ⟨[i], []⟩ ∨
      (∃ p < q, ∃ n, b.nodes.keys[p]? = some n ∧
        ∃ a' ∈ atoms (g.consumingOf n), other = ⟨a'.2, []⟩) ∨
      (∃ a' ∈ A, other = ⟨a'.2, []⟩) ∨ other = ⟨a.2, []⟩ := by
  have parts := List.take_append_drop q b.nodes.keys.toList
  rw [Numbering.drop_keys hq] at parts
  have numbering := h.keys_eq consuming
  rw [← parts, List.flatMap_append, List.flatMap_cons, split, List.map_append, List.map_cons,
    List.append_assoc, List.cons_append, ← List.append_assoc, ← List.cons_append] at numbering
  rw [← Numbering.place?_eq_some_iff, numbering] at hr hs
  rcases Numbering.mem_of_number_le hr hs le with before | same
  · rw [List.mem_cons, List.mem_append, List.mem_flatMap, List.mem_map] at before
    rcases before with first | ⟨n, hn, found⟩ | ⟨a', ha', same⟩
    · exact .inl first
    · obtain ⟨p, hp⟩ := List.mem_iff_getElem?.mp hn
      rw [List.getElem?_take, Option.ite_none_right_eq_some, Array.getElem?_toList] at hp
      obtain ⟨a', ha', same⟩ := List.mem_map.mp found
      exact .inr (.inl ⟨p, hp.1, n, hp.2, a', ha', same.symm⟩)
    · exact .inr (.inr (.inl ⟨a', ha', same.symm⟩))
  · exact .inr (.inr (.inr same))

theorem isLive_iff_lt (h : Determined g d i b) {s : Nat} :
    d.IsLive s ↔ s < b.nodes.keys.size := by
  rw [h.isLive_iff]
  constructor
  · rintro ⟨node, key⟩
    exact (Array.getElem?_eq_some_iff.mp key).1
  · intro lt
    exact ⟨_, Array.getElem?_eq_getElem lt⟩

theorem breadthFirst (h : Determined g d i b) (consuming : g.Consuming) : d.BreadthFirst := by
  have enters {q k : Nat} {n : Node} {a : CharSet × List Nat} (hn : b.nodes.keys[q]? = some n)
      (ha : a ∈ atoms (g.consumingOf n)) (hk : b.nodes.keys[k]? = some ⟨a.2, []⟩) :
      ∃ y, d.Goes q y k := by
    obtain ⟨-, ⟨y, hy⟩, -⟩ := mem_of_mem_atoms ha
    exact ⟨y, (h.goes_iff consuming hn).mpr ⟨a, ha, hy, hk⟩⟩
  constructor
  · intro s live start
    obtain ⟨node, key⟩ := h.isLive_iff.mp live
    have size : (Subsets.start i : Subsets ν).nodes.size = 1 := by
      have len := congrArg List.length (keys_start (ν := ν) i)
      rwa [Array.length_toList] at len
    obtain ⟨q, lt, parent, hq, l, hl, rfl⟩ := h.run.found key (by omega)
    rw [leavesOf_eq consuming] at hl
    obtain ⟨a, ha, rfl⟩ := List.mem_map.mp hl
    exact ⟨q, lt, enters hq ha key⟩
  · intro q x r s goes le start
    obtain ⟨node, hq⟩ := h.isLive_iff.mp (goes.isLive_source h.intact_graph)
    obtain ⟨a, ha, hx, hr⟩ := (h.goes_iff consuming hq).mp goes
    have lt : s < b.nodes.keys.size := Nat.lt_of_le_of_lt le (Array.getElem?_eq_some_iff.mp hr).1
    have hs : b.nodes.keys[s]? = some b.nodes.keys[s] := Array.getElem?_eq_getElem lt
    obtain ⟨A, B, split⟩ := List.append_of_mem ha
    rcases h.found_before consuming hq split hr hs le with
      first | ⟨p, before, n, hp, a', ha', same⟩ | ⟨a', ha', same⟩ | same
    · rw [first] at hs
      have zero := (Numbering.place?_eq_some_iff.mpr hs).symm.trans
        (Numbering.place?_eq_some_iff.mpr h.key_start)
      exact absurd (Option.some.inj zero) start
    · rw [same] at hs
      exact .inl ⟨p, before, enters hp ha' hs⟩
    · -- An earlier atom has a character below all those of a later one.
      rw [same] at hs
      have order := pairwise_atoms (g.consumingOf node)
      rw [split] at order
      obtain ⟨y, hy, below⟩ := (List.pairwise_append.mp order).2.2 a' ha' a (by simp)
      have member : a' ∈ atoms (g.consumingOf node) := split ▸ List.mem_append_left _ ha'
      refine .inr ⟨y, Std.le_of_lt (below x hx), ?_⟩
      exact (h.goes_iff consuming hq).mpr ⟨a', member, hy, hs⟩
    · rw [same] at hs
      exact .inr ⟨x, Char.le_refl x, (h.goes_iff consuming hq).mpr ⟨a, ha, hx, hs⟩⟩

end Determined

end PatternAutomata.Graph
