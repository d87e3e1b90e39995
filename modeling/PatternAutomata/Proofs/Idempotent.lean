import PatternAutomata.Proofs.Coarsest

/-!
# Quotients are their own quotients

In a quotient by the coarsest bisimulation no two states are bisimilar, since their classes would
have been one (`Quotient.block_inj`). Its own blocks are therefore single states with their own
numbers, and what leaves them is already written down in the way of a quotient
(`minimize_minimize`).
-/
namespace PatternAutomata.Graph

/-- A division of numbers that keeps all of them apart is the division by themselves. -/
theorem Division.Ordered.block_eq_self {e : Division} {n : Nat} (ordered : e.Ordered (List.range n))
    (apart : ∀ b < n, ∀ c < n, e.block b = e.block c → b = c) :
    e.size = n ∧ ∀ b < n, e.block b = b := by
  have once : ((List.range n).map e.block).Nodup := by
    refine (List.nodup_map_iff_inj_on List.nodup_range).mpr fun b hb c hc => ?_
    exact apart b (List.mem_range.mp hb) c (List.mem_range.mp hc)
  have blocks : (List.range n).map e.block = List.range e.size :=
    (distinct_eq_self once).symm.trans ordered
  have size : n = e.size := by simpa using congrArg List.length blocks
  refine ⟨size.symm, fun b hb => ?_⟩
  have key := congrArg (·[b]?) blocks
  simpa [List.getElem?_range hb, List.getElem?_range (size ▸ hb)] using key

theorem Division.representatives_range {e : Division} {n : Nat} (ordered : e.Ordered (List.range n))
    (self : ∀ b < n, e.block b = b) (size : e.size = n) :
    e.representatives (List.range n) = List.range n := by
  obtain ⟨blocks, members⟩ := Division.representatives_spec ordered
  have same : (e.representatives (List.range n)).map e.block =
      (e.representatives (List.range n)).map id :=
    List.map_congr_left fun b hb => self b (List.mem_range.mp (members b hb))
  rw [← List.map_id (e.representatives _), ← same, blocks, size]

section
variable {ν : Type} [DecidableEq ν] [Hashable ν] {g : Graph ν} {d : Division} {b s : Nat}

/-- The edges of a block that consume nothing come first, each of them once. -/
theorem filter_blockEdges : (g.blockEdges d b s).filter (fun f => !f.condition.isConsuming) =
    distinct (((g.outgoing s).filter fun t => !t.condition.isConsuming).map fun t =>
      ⟨b, d.block t.target, t.condition⟩) := by
  unfold blockEdges
  rw [List.filter_append]
  refine (congrArg₂ (· ++ ·) (List.filter_eq_self.mpr ?_) (List.filter_eq_nil_iff.mpr ?_)).trans
    (List.append_nil _)
  · intro f hf
    obtain ⟨t, ht, rfl⟩ := List.mem_map.mp (mem_distinct.mp hf)
    exact (List.mem_filter.mp ht).2
  · intro f hf
    obtain ⟨p, -, rfl⟩ := List.mem_map.mp hf
    simp [Condition.isConsuming_ofSet]

end

namespace Quotient

variable {ν : Type} [DecidableEq ν] [Hashable ν] {g m : Graph ν} {i : Nat} {e : Division}

/-- States of the quotient that are in one block are equal. -/
theorem block_inj (q : Quotient g m i g.division) {b c : Nat} (hb : b < g.division.size)
    (hc : c < g.division.size) (same : m.division.block b = m.division.block c) : b = c := by
  have live : m.IsLive (g.division.block i) := q.isLive_iff.mpr (q.block_lt q.start)
  -- From a state to its block, on to a block that is not told apart, and back.
  have down := q.bisimulation (bisimulation_division q.intact q.start)
  have around := (down.comp (bisimulation_division q.intact_graph live)).comp down.symm
  obtain ⟨s, hs, rfl⟩ := q.exists_state hb
  obtain ⟨r, hr, rfl⟩ := q.exists_state hc
  refine around.block_eq q.intact ?_ s r ⟨_, ⟨_, ⟨hs, rfl⟩, ?_, ?_, same⟩, hr, rfl⟩
  · rintro s r ⟨_, ⟨_, ⟨hs, -⟩, -⟩, hr, -⟩
    exact ⟨hs, hr⟩
  · exact q.isLive_iff.mpr hb
  · exact q.isLive_iff.mpr hc

section
variable (q : Quotient g m i g.division) (self : ∀ b < g.division.size, e.block b = b) {b s : Nat}
  (hs : (g.division.representatives g.liveStates)[b]? = some s)

include q self hs

/-- In the quotient a block sends to blocks what its representative sends to them. -/
theorem sends_iff {K : Condition ν → Prop} (trait : Trait K) {x : Nat} :
    m.Sends e K b x ↔ g.Sends g.division K s x := by
  refine Iff.trans ?_ (exists_mem_blockEdges trait (b := b))
  rw [Sends, q.outgoing_eq hs]
  constructor
  · rintro ⟨_, out, holds, block⟩
    obtain ⟨f, hf, rfl⟩ := List.mem_map.mp out
    exact ⟨f, hf, holds, (self _ (q.target_lt hf)).symm.trans block⟩
  · rintro ⟨f, hf, holds, target⟩
    exact ⟨_, List.mem_map_of_mem hf, holds, (self _ (q.target_lt hf)).trans target⟩

theorem consumingTo_graph :
    (m.leaving .empty b).consumingTo e = (g.leaving .empty s).consumingTo g.division := by
  refine eq_of_rise pairwise_consumingTo pairwise_consumingTo (fun x => ?_) fun x c => ?_
  · rw [listed_iff_sends, listed_iff_sends, q.sends_iff self hs .consumes]
  · rw [ledTo_iff_sends, ledTo_iff_sends, q.sends_iff self hs (.takes c)]

/-- The edges of a block, taken once more from the quotient, are the same. -/
theorem blockEdges_graph : m.blockEdges e b b = (m.outgoing b).map (·.toEdge) := by
  have outgoing : (m.outgoing b).map (·.toEdge) = g.blockEdges g.division b s := by
    rw [q.outgoing_eq hs, List.map_map]
    exact List.map_id _
  have silent : ((m.outgoing b).filter fun t => !t.condition.isConsuming).map
      (fun t => Edge.mk b (e.block t.target) t.condition) =
        (g.blockEdges g.division b s).filter fun f => !f.condition.isConsuming := by
    rw [q.outgoing_eq hs, List.filter_map, List.map_map]
    conv_rhs => rw [← List.map_id (List.filter _ _)]
    refine List.map_congr_left fun f hf => ?_
    have member := (List.mem_filter.mp hf).1
    have target := self _ (q.target_lt member)
    obtain ⟨source, _, condition⟩ := f
    cases source_of_mem_blockEdges (s, b) _ member
    simp only [Function.comp_apply, target, id_eq]
  rw [outgoing, blockEdges, silent, filter_blockEdges, distinct_eq_self (nodup_distinct _),
    q.consumingTo_graph self hs]
  rfl

end

end Quotient

/-- Minimizing an automaton a second time changes nothing but the tag. -/
theorem minimize_minimize {ν : Type} [DecidableEq ν] [Hashable ν] {g : Graph ν} {i : Nat}
    (hg : g.HasHistory) (initial : g.initial = some i) (tag tag' : Nat) :
    ∃ m, g.minimize tag = .ok m ∧ m.minimize tag' = .ok { m with tag := tag' } := by
  obtain ⟨m, ok, q⟩ := minimize_spec hg.intact initial tag
  refine ⟨m, ok, ?_⟩
  have states : m.liveStates = List.range g.division.size :=
    Graph.liveStates_eq fun s => q.isLive_iff
  have live : m.IsLive (g.division.block i) := q.isLive_iff.mpr (q.block_lt q.start)
  have ordered : m.division.Ordered (List.range g.division.size) :=
    states ▸ (division_spec q.intact_graph live).1
  obtain ⟨size, self⟩ := ordered.block_eq_self fun b hb c hc => q.block_inj hb hc
  have chosen := Division.representatives_range ordered self size
  have edges : ((List.range g.division.size).zipIdx.flatMap fun p =>
      m.blockEdges m.division p.2 p.1) =
        (List.range g.division.size).flatMap fun b => (m.outgoing b).map (·.toEdge) := by
    conv_rhs => rw [← List.zipIdx_map_fst 0 (List.range g.division.size), List.flatMap_map]
    refine List.flatMap_congr fun ⟨s, b⟩ hp => ?_
    obtain ⟨lt, same⟩ := List.getElem?_eq_some_iff.mp (List.mem_zipIdx_iff_getElem?.mp hp)
    rw [List.length_range] at lt
    rw [List.getElem_range] at same
    cases same
    obtain ⟨r, hr, -⟩ := q.exists_representative lt
    exact q.blockEdges_graph self hr
  obtain ⟨tag'', graph⟩ := q.eq_build
  have retagged : { m with tag := tag' } =
      build tag' ((List.range g.division.size).map m.isAccepting)
        ((List.range g.division.size).flatMap fun b => (m.outgoing b).map (·.toEdge))
          (some (g.division.block i)) :=
    (congrArg (fun k : Graph ν => { k with tag := tag' }) graph).trans (tag_build tag')
  calc m.minimize tag'
      = .ok (build tag' ((List.range g.division.size).map m.isAccepting)
          ((List.range g.division.size).flatMap fun b => (m.outgoing b).map (·.toEdge))
            (some (g.division.block i))) := by
        rw [minimize, q.initial]
        simp only [states, chosen, self _ (q.block_lt q.start), edges]
    _ = .ok { m with tag := tag' } := congrArg Except.ok retagged.symm

theorem minimize_minimize_guarded : guarded.HasHistory ∧ guarded.initial = some 0 ∧
    ∃ m, guarded.minimize 2 = .ok m ∧ m.minimize 3 = .ok { m with tag := 3 } :=
  ⟨hasHistory_guarded, initial_guarded, minimize_minimize hasHistory_guarded initial_guarded 2 3⟩

end PatternAutomata.Graph
