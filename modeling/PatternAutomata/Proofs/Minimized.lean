import PatternAutomata.Proofs.Built
import PatternAutomata.Proofs.Division
import PatternAutomata.Proofs.SingleWay

/-!
# The quotient accepts the same

In a stable division, states of one block accept alike and move alike, up to blocks (`Congruent`).
The quotient by it moves from block to block as the states in the blocks move (`moves_iff`), hence
it accepts the same (`ends_iff`). Merging states makes no second transition apply where at most one
did, so that a search along a single way comes to the same end (`walk_eq`).
-/
namespace PatternAutomata

namespace Graph

/-- A character leads to a block. -/
def LedTo (led : List (Nat × CharSet)) (b : Nat) (c : Char) : Prop := ∃ p ∈ led, p.1 = b ∧ c ∈ p.2

theorem ledTo_addLed {led : List (Nat × CharSet)} {block b : Nat} {s : CharSet} {c : Char} :
    LedTo (addLed block s led) b c ↔ block = b ∧ c ∈ s ∨ LedTo led b c := by
  induction led with
  | nil => simp [LedTo, addLed]
  | cons l rest ih =>
    unfold addLed
    split
    · simp only [LedTo, List.exists_mem_cons_iff]
    · split
      · next e =>
        simp only [LedTo, List.exists_mem_cons_iff, CharSet.mem_union, ← e]
        tauto
      · rw [LedTo, List.exists_mem_cons_iff, ← LedTo, ih, LedTo, LedTo, List.exists_mem_cons_iff]
        exact or_left_comm

theorem exists_mem_addLed {led : List (Nat × CharSet)} {block b : Nat} {s : CharSet} :
    (∃ p ∈ addLed block s led, p.1 = b) ↔ block = b ∨ ∃ p ∈ led, p.1 = b := by
  induction led with
  | nil => simp [addLed]
  | cons l rest ih =>
    unfold addLed
    split
    · rw [List.exists_mem_cons_iff]
    · split
      · next e =>
        rw [List.exists_mem_cons_iff, List.exists_mem_cons_iff, ← e]
        tauto
      · rw [List.exists_mem_cons_iff, ih, List.exists_mem_cons_iff]
        exact or_left_comm

theorem pairwise_addLed {led : List (Nat × CharSet)} {block : Nat} {s : CharSet}
    (rise : led.Pairwise fun p q => p.1 < q.1) :
    (addLed block s led).Pairwise fun p q => p.1 < q.1 := by
  induction led with
  | nil => exact List.pairwise_singleton ..
  | cons l rest ih =>
    obtain ⟨first, rise'⟩ := List.pairwise_cons.mp rise
    unfold addLed
    split
    · next lt =>
      refine List.pairwise_cons.mpr ⟨?_, rise⟩
      intro q hq
      rcases List.mem_cons.mp hq with rfl | hq
      · exact lt
      · exact Nat.lt_trans lt (first q hq)
    · split
      · next e =>
        refine List.pairwise_cons.mpr ⟨?_, rise'⟩
        intro q hq
        rw [e]
        exact first q hq
      · next ne =>
        refine List.pairwise_cons.mpr ⟨?_, ih rise'⟩
        intro q hq
        rcases exists_mem_addLed.mp ⟨q, hq, rfl⟩ with e | ⟨r, hr, e⟩
        · omega
        · exact e ▸ first r hr

section
variable {l : Leaving} {d : Division}

/-- The blocks that characters lead to rise. -/
theorem pairwise_consumingTo : (l.consumingTo d).Pairwise fun p q => p.1 < q.1 := by
  unfold Leaving.consumingTo
  suffices rise : ∀ led : List (Nat × CharSet), led.Pairwise (fun p q => p.1 < q.1) →
      (l.consuming.foldl (fun led p => addLed (d.block p.2) p.1 led) led).Pairwise
        fun p q => p.1 < q.1 from rise [] .nil
  induction l.consuming with
  | nil => exact fun led rise => rise
  | cons p ps ih =>
    intro led rise
    exact ih _ (pairwise_addLed rise)

theorem ledTo_consumingTo {b : Nat} {c : Char} :
    LedTo (l.consumingTo d) b c ↔ ∃ p ∈ l.consuming, d.block p.2 = b ∧ c ∈ p.1 := by
  unfold Leaving.consumingTo
  suffices led : ∀ led : List (Nat × CharSet),
      LedTo (l.consuming.foldl (fun led p => addLed (d.block p.2) p.1 led) led) b c ↔
        (∃ p ∈ l.consuming, d.block p.2 = b ∧ c ∈ p.1) ∨ LedTo led b c by
    refine (led []).trans ?_
    simp [LedTo]
  induction l.consuming with
  | nil => simp
  | cons p ps ih =>
    intro led
    rw [List.foldl_cons, ih, ledTo_addLed, List.exists_mem_cons_iff]
    exact or_left_comm.trans or_assoc.symm

/-- The blocks that are listed are those that consuming transitions lead to. -/
theorem exists_mem_consumingTo {b : Nat} :
    (∃ p ∈ l.consumingTo d, p.1 = b) ↔ ∃ q ∈ l.consuming, d.block q.2 = b := by
  unfold Leaving.consumingTo
  suffices listed : ∀ led : List (Nat × CharSet),
      (∃ p ∈ l.consuming.foldl (fun led p => addLed (d.block p.2) p.1 led) led, p.1 = b) ↔
        (∃ q ∈ l.consuming, d.block q.2 = b) ∨ ∃ p ∈ led, p.1 = b by
    refine (listed []).trans ?_
    simp
  induction l.consuming with
  | nil => simp
  | cons q qs ih =>
    intro led
    rw [List.foldl_cons, ih, exists_mem_addLed, List.exists_mem_cons_iff]
    exact or_left_comm.trans or_assoc.symm

theorem mem_silentTo {n b : Nat} :
    (n, b) ∈ l.silentTo d ↔ ∃ p ∈ l.silent, p.1 = n ∧ d.block p.2 = b := by
  simp [Leaving.silentTo]

end

/-- States of one block accept alike and move alike, up to blocks. -/
structure Congruent {ν : Type} (g : Graph ν) (d : Division) : Prop where
  accepting : ∀ {s r}, g.IsLive s → g.IsLive r → d.block s = d.block r →
    g.isAccepting s = g.isAccepting r
  consuming : ∀ {s r}, g.IsLive s → g.IsLive r → d.block s = d.block r →
    ∀ t ∈ g.outgoing s, ∀ set, t.condition.charSet? = some set → ∀ c ∈ set,
      ∃ t' ∈ g.outgoing r, ∃ set', t'.condition.charSet? = some set' ∧ c ∈ set' ∧
        d.block t'.target = d.block t.target
  silent : ∀ {s r}, g.IsLive s → g.IsLive r → d.block s = d.block r →
    ∀ t ∈ g.outgoing s, t.condition.isConsuming = false →
      ∃ t' ∈ g.outgoing r, t'.condition = t.condition ∧ d.block t'.target = d.block t.target

section
variable {ν : Type} [DecidableEq ν] [Hashable ν] {g : Graph ν} {d : Division}

omit [DecidableEq ν] [Hashable ν] in
theorem lt_of_mem_liveStates {s : Nat} (hs : s ∈ g.liveStates) : s < g.states.size :=
  (mem_liveStates.mp hs).lt

theorem mem_consuming {conditions : Numbering (Condition ν)} {s : Nat} {p : CharSet × Nat} :
    p ∈ (g.leaving conditions s).consuming ↔
      ∃ t ∈ g.outgoing s, t.condition.charSet? = some p.1 ∧ t.target = p.2 := by
  obtain ⟨set, target⟩ := p
  simp only [leaving, List.mem_filterMap, Option.map_eq_some_iff, Prod.mk.injEq]
  constructor
  · rintro ⟨t, ht, _, hset, rfl, e⟩
    exact ⟨t, ht, hset, e⟩
  · rintro ⟨t, ht, hset, e⟩
    exact ⟨t, ht, set, hset, rfl, e⟩

theorem mem_silent {conditions : Numbering (Condition ν)} {s : Nat} {p : Nat × Nat} :
    p ∈ (g.leaving conditions s).silent ↔
      ∃ t ∈ g.outgoing s, conditions.place? t.condition = some p.1 ∧ t.target = p.2 := by
  obtain ⟨n, target⟩ := p
  simp only [leaving, List.mem_filterMap, Option.map_eq_some_iff, Prod.mk.injEq]
  constructor
  · rintro ⟨t, ht, _, hn, rfl, e⟩
    exact ⟨t, ht, hn, e⟩
  · rintro ⟨t, ht, hn, e⟩
    exact ⟨t, ht, n, hn, rfl, e⟩

theorem leads_leaving (hg : g.Intact) (conditions : Numbering (Condition ν)) :
    Division.Leads (g.leaving conditions) g.liveStates := by
  refine ⟨fun s => rfl, ?_, ?_⟩
  · intro s _ p hp
    obtain ⟨t, ht, _, e⟩ := mem_consuming.mp hp
    exact e ▸ mem_liveStates.mpr (hg.isLive_target ht)
  · intro s _ p hp
    obtain ⟨t, ht, _, e⟩ := mem_silent.mp hp
    exact e ▸ mem_liveStates.mpr (hg.isLive_target ht)

/-- Every condition that consumes nothing has a number. -/
theorem exists_silentCondition (hg : g.Intact) {s : Nat} {t : Transition ν} (ht : t ∈ g.outgoing s)
    (silent : t.condition.isConsuming = false) :
    ∃ n, g.silentConditions.place? t.condition = some n := by
  apply Option.isSome_iff_exists.mp
  rw [Numbering.place?_isSome_iff]
  obtain ⟨i, hi⟩ := hg.mem_liveTransitions ht
  refine Numbering.mem_ofList.mpr (List.mem_filter.mpr ⟨List.mem_map.mpr ⟨_, hi, rfl⟩, ?_⟩)
  rw [silent]
  rfl

/-- A stable division that tells accepting states from others is a congruence. -/
theorem congruent_of_stable (hg : g.Intact)
    (stable : d.Stable (g.leaving g.silentConditions) g.liveStates)
    (accepting : ∀ s ∈ g.liveStates, ∀ r ∈ g.liveStates, d.block s = d.block r →
      g.isAccepting s = g.isAccepting r) : g.Congruent d := by
  refine ⟨?_, ?_, ?_⟩
  · intro s r hs hr
    exact accepting s (mem_liveStates.mpr hs) r (mem_liveStates.mpr hr)
  · intro s r hs hr same t ht set hset c hc
    have keys := stable s (mem_liveStates.mpr hs) r (mem_liveStates.mpr hr) same
    have led : LedTo ((g.leaving g.silentConditions s).consumingTo d) (d.block t.target) c :=
      ledTo_consumingTo.mpr ⟨(set, t.target), mem_consuming.mpr ⟨t, ht, hset, rfl⟩, rfl, hc⟩
    have same' := congrArg (fun k => k.2.1) keys
    simp only [Leaving.key] at same'
    rw [same'] at led
    obtain ⟨p, hp, block, hcp⟩ := ledTo_consumingTo.mp led
    obtain ⟨t', ht', hset', e⟩ := mem_consuming.mp hp
    exact ⟨t', ht', p.1, hset', hcp, e ▸ block⟩
  · intro s r hs hr same t ht silent
    have keys := stable s (mem_liveStates.mpr hs) r (mem_liveStates.mpr hr) same
    obtain ⟨n, hn⟩ := exists_silentCondition hg ht silent
    have member : (n, d.block t.target) ∈ (g.leaving g.silentConditions s).silentTo d :=
      mem_silentTo.mpr ⟨(n, t.target), mem_silent.mpr ⟨t, ht, hn, rfl⟩, rfl, rfl⟩
    have same' := congrArg (fun k => k.2.2) keys
    simp only [Leaving.key] at same'
    rw [same'] at member
    obtain ⟨p, hp, hpn, block⟩ := mem_silentTo.mp member
    obtain ⟨t', ht', hn', e⟩ := mem_silent.mp hp
    exact ⟨t', ht', Numbering.eq_of_place? (hpn ▸ hn') hn, e ▸ block⟩

omit [DecidableEq ν] [Hashable ν] in
/-- The division that refinement starts from. -/
theorem ordered_acceptance (g : Graph ν) : (Division.ofKeys g.states.size
    (g.liveStates.map fun s => (s, g.isAccepting s))).Ordered g.liveStates :=
  Division.ordered_ofKeys _ _ (List.nodup_range.filter _) fun _ => lt_of_mem_liveStates

/-- The division of an automaton that has states is stable. -/
theorem stable_division (hg : g.Intact) {i : Nat} (hi : g.IsLive i) :
    g.division.Ordered g.liveStates ∧
      g.division.Stable (g.leaving g.silentConditions) g.liveStates ∧
        ∀ s ∈ g.liveStates, ∀ r ∈ g.liveStates, g.division.block s = g.division.block r →
          g.isAccepting s = g.isAccepting r := by
  have once : g.liveStates.Nodup := List.nodup_range.filter _
  have start := ordered_acceptance g
  have some : 0 < (Division.ofKeys g.states.size
      (g.liveStates.map fun s => (s, g.isAccepting s))).size :=
    Nat.lt_of_le_of_lt (Nat.zero_le _) (start.block_lt (mem_liveStates.mpr hi))
  obtain ⟨ordered, finer, stable⟩ := Division.refineFrom_stable
    (leads_leaving hg g.silentConditions) once (fun s => lt_of_mem_liveStates) start
      (Nat.lt_add_of_pos_left some)
  refine ⟨ordered, stable, ?_⟩
  intro s hs r hr same
  exact (Division.block_ofKeys _ _ once (fun s => lt_of_mem_liveStates) hs hr).mp
    (finer s hs r hr same)

theorem division_spec (hg : g.Intact) {i : Nat} (hi : g.IsLive i) :
    g.division.Ordered g.liveStates ∧ g.Congruent g.division := by
  obtain ⟨ordered, stable, accepting⟩ := stable_division hg hi
  exact ⟨ordered, congruent_of_stable hg stable accepting⟩

/-- The automaton is the quotient of the other one by a congruence. -/
structure Quotient (g m : Graph ν) (i : Nat) (d : Division) : Prop where
  intact : g.Intact
  start : g.IsLive i
  ordered : d.Ordered g.liveStates
  congruent : g.Congruent d
  graph : ∃ tag, m = build tag ((d.representatives g.liveStates).map g.isAccepting)
    ((d.representatives g.liveStates).zipIdx.flatMap fun p => g.blockEdges d p.2 p.1)
      (some (d.block i))

theorem minimize_spec (hg : g.Intact) {i : Nat} (initial : g.initial = some i) (tag : Nat) :
    ∃ m, g.minimize tag = .ok m ∧ Quotient g m i g.division := by
  have live := hg.initial_live i initial
  obtain ⟨ordered, congruent⟩ := division_spec hg live
  refine ⟨_, ?_, hg, live, ordered, congruent, tag, rfl⟩
  rw [minimize, initial]

/-- The edges of a block are the silent ones of its representative, and one to each block that
characters lead to. -/
theorem mem_blockEdges {b s : Nat} {e : Edge ν} : e ∈ g.blockEdges d b s ↔
    (∃ t ∈ g.outgoing s, t.condition.isConsuming = false ∧ e = ⟨b, d.block t.target, t.condition⟩) ∨
      ∃ p ∈ (g.leaving .empty s).consumingTo d, e = ⟨b, p.1, .ofSet p.2⟩ := by
  simp only [blockEdges, List.mem_append, mem_distinct, List.mem_map, List.mem_filter,
    Bool.not_eq_true']
  refine or_congr ?_ ?_
  · constructor
    · rintro ⟨t, ⟨ht, silent⟩, rfl⟩
      exact ⟨t, ht, silent, rfl⟩
    · rintro ⟨t, ht, silent, rfl⟩
      exact ⟨t, ⟨ht, silent⟩, rfl⟩
  · constructor
    · rintro ⟨p, hp, rfl⟩
      exact ⟨p, hp, rfl⟩
    · rintro ⟨p, hp, rfl⟩
      exact ⟨p, hp, rfl⟩

theorem source_of_mem_blockEdges (p : Nat × Nat) :
    ∀ e ∈ g.blockEdges d p.2 p.1, e.source = p.2 := by
  intro e he
  rcases mem_blockEdges.mp he with ⟨t, _, _, rfl⟩ | ⟨p, _, rfl⟩ <;> rfl

/-- Edges that differ in their targets, or in their conditions and not both of them consume. -/
def Apart (e f : Edge ν) : Prop :=
  e.target ≠ f.target ∨ e.condition ≠ f.condition ∧
    (e.condition.isConsuming = false ∨ f.condition.isConsuming = false)

theorem pairwise_blockEdges {b s : Nat} : (g.blockEdges d b s).Pairwise Apart := by
  unfold blockEdges
  apply List.pairwise_append.mpr
  refine ⟨?_, ?_, ?_⟩
  · refine List.Pairwise.imp_of_mem ?_ (nodup_distinct _)
    intro e f he hf ne
    obtain ⟨t, ht, rfl⟩ := List.mem_map.mp (mem_distinct.mp he)
    obtain ⟨r, -, rfl⟩ := List.mem_map.mp (mem_distinct.mp hf)
    by_cases same : d.block t.target = d.block r.target
    · refine .inr ⟨fun condition => ne ?_, .inl ?_⟩
      · rw [same, condition]
      · simpa using (List.mem_filter.mp ht).2
    · exact .inl same
  · rw [List.pairwise_map]
    refine pairwise_consumingTo.imp ?_
    intro p q lt
    exact .inl (Nat.ne_of_lt lt)
  · intro e he f hf
    obtain ⟨t, ht, rfl⟩ := List.mem_map.mp (mem_distinct.mp he)
    obtain ⟨p, -, rfl⟩ := List.mem_map.mp hf
    have silent : t.condition.isConsuming = false := by simpa using (List.mem_filter.mp ht).2
    refine .inr ⟨?_, .inl silent⟩
    intro same
    have same' : t.condition = .ofSet p.2 := same
    rw [same', Condition.isConsuming_ofSet] at silent
    cases silent

namespace Quotient

variable {m : Graph ν} {i : Nat} {probe : Probe ν} {u v : List Char}

/-- The representative of a block. -/
theorem exists_representative (h : Quotient g m i d) {b : Nat} (hb : b < d.size) :
    ∃ s, (d.representatives g.liveStates)[b]? = some s ∧ g.IsLive s ∧ d.block s = b := by
  obtain ⟨blocks, members⟩ := Division.representatives_spec h.ordered
  have key : ((d.representatives g.liveStates).map d.block)[b]? = some b := by
    rw [blocks, List.getElem?_range hb]
  rw [List.getElem?_map, Option.map_eq_some_iff] at key
  obtain ⟨s, hs, e⟩ := key
  exact ⟨s, hs, mem_liveStates.mp (members s (List.mem_of_getElem? hs)), e⟩

theorem length_representatives (h : Quotient g m i d) :
    (d.representatives g.liveStates).length = d.size := by
  have len := congrArg List.length (Division.representatives_spec h.ordered).1
  rwa [List.length_map, List.length_range] at len

theorem block_lt (h : Quotient g m i d) {s : Nat} (hs : g.IsLive s) : d.block s < d.size :=
  h.ordered.block_lt (mem_liveStates.mpr hs)

theorem target_lt (h : Quotient g m i d) {b s : Nat} {e : Edge ν}
    (he : e ∈ g.blockEdges d b s) : e.target < d.size := by
  rcases mem_blockEdges.mp he with ⟨t, ht, _, rfl⟩ | ⟨p, hp, rfl⟩
  · exact h.block_lt (h.intact.isLive_target ht)
  · obtain ⟨q, hq, e⟩ := exists_mem_consumingTo.mp ⟨p, hp, rfl⟩
    obtain ⟨t, ht, _, target⟩ := mem_consuming.mp hq
    rw [← target] at e
    exact e ▸ h.block_lt (h.intact.isLive_target ht)

theorem joins (h : Quotient g m i d) :
    Joins ((d.representatives g.liveStates).map g.isAccepting).length
      ((d.representatives g.liveStates).zipIdx.flatMap fun p => g.blockEdges d p.2 p.1) := by
  intro e he
  obtain ⟨⟨s, b⟩, hp, he⟩ := List.mem_flatMap.mp he
  have hb := List.mem_zipIdx_iff_getElem?.mp hp
  rw [List.length_map]
  constructor
  · rw [source_of_mem_blockEdges (s, b) e he]
    exact (List.getElem?_eq_some_iff.mp hb).1
  · rw [h.length_representatives]
    exact h.target_lt he

theorem initial (h : Quotient g m i d) : m.initial = some (d.block i) := by
  obtain ⟨tag, rfl⟩ := h.graph
  rfl

theorem isLive_iff (h : Quotient g m i d) {b : Nat} : m.IsLive b ↔ b < d.size := by
  obtain ⟨tag, rfl⟩ := id h.graph
  rw [isLive_build, List.length_map, h.length_representatives]

theorem intact_graph (h : Quotient g m i d) : m.Intact := by
  obtain ⟨tag, rfl⟩ := id h.graph
  apply intact_build h.joins
  intro s hs
  cases hs
  rw [List.length_map, h.length_representatives]
  exact h.block_lt h.start

/-- What leaves a block are the edges of its representative. -/
theorem outgoing_eq (h : Quotient g m i d) {b s : Nat}
    (hb : (d.representatives g.liveStates)[b]? = some s) :
    m.outgoing b = (g.blockEdges d b s).map fun e => ⟨e, false⟩ := by
  have own := filter_source_flatMap (f := fun p : Nat × Nat => g.blockEdges d p.2 p.1)
    source_of_mem_blockEdges (d.representatives g.liveStates) 0 b
  obtain ⟨tag, rfl⟩ := id h.graph
  rw [outgoing_build h.joins]
  congr 1
  simpa [hb] using own

theorem isAccepting_block (h : Quotient g m i d) {s : Nat} (hs : g.IsLive s) :
    m.isAccepting (d.block s) = g.isAccepting s := by
  obtain ⟨r, hr, live, same⟩ := h.exists_representative (h.block_lt hs)
  obtain ⟨tag, rfl⟩ := id h.graph
  rw [isAccepting_build, List.getElem?_map, hr]
  exact h.congruent.accepting live hs same

/-- Blocks move as the states in them move. -/
theorem moves_iff (h : Quotient g m i d) {s : Nat} (hs : g.IsLive s) {c : Config} :
    m.Moves probe (d.block s, u) c ↔
      ∃ t ∈ g.outgoing s, d.block t.target = c.1 ∧ t.condition.Leads probe u c.2 := by
  obtain ⟨r, hr, live, same⟩ := h.exists_representative (h.block_lt hs)
  unfold Moves
  rw [h.outgoing_eq hr]
  constructor
  · rintro ⟨_, out, target, leads⟩
    obtain ⟨e, he, rfl⟩ := List.mem_map.mp out
    rcases mem_blockEdges.mp he with ⟨t, ht, silent, rfl⟩ | ⟨p, hp, rfl⟩
    · obtain ⟨t', ht', condition, block⟩ := h.congruent.silent live hs same t ht silent
      exact ⟨t', ht', block.trans target, condition ▸ leads⟩
    · obtain ⟨x, hx, rest⟩ := Condition.leads_ofSet.mp leads
      obtain ⟨q, hq, block, hxq⟩ := ledTo_consumingTo.mp ⟨p, hp, rfl, hx⟩
      obtain ⟨t, ht, hset, e⟩ := mem_consuming.mp hq
      obtain ⟨t', ht', set', hset', hx', block'⟩ :=
        h.congruent.consuming live hs same t ht _ hset x hxq
      refine ⟨t', ht', ?_, (Condition.leads_iff_of_charSet hset').mpr ⟨x, hx', rest⟩⟩
      rw [block', e, block]
      exact target
  · rintro ⟨t, ht, target, leads⟩
    cases hset : t.condition.charSet? with
    | none =>
      have silent : t.condition.isConsuming = false := by
        rw [Condition.isConsuming_eq, hset]
        rfl
      obtain ⟨t', ht', condition, block⟩ := h.congruent.silent hs live same.symm t ht silent
      refine ⟨_, List.mem_map_of_mem (mem_blockEdges.mpr (.inl ⟨t', ht', ?_, rfl⟩)), ?_, ?_⟩
      · rw [condition, silent]
      · exact block.trans target
      · exact condition ▸ leads
    | some set =>
      obtain ⟨x, hx, rest⟩ := (Condition.leads_iff_of_charSet hset).mp leads
      obtain ⟨t', ht', set', hset', hx', block⟩ :=
        h.congruent.consuming hs live same.symm t ht set hset x hx
      have led : LedTo ((g.leaving .empty r).consumingTo d) (d.block t'.target) x :=
        ledTo_consumingTo.mpr ⟨(set', t'.target), mem_consuming.mpr ⟨t', ht', hset', rfl⟩, rfl, hx'⟩
      obtain ⟨p, hp, target', hxp⟩ := led
      refine ⟨_, List.mem_map_of_mem (mem_blockEdges.mpr (.inr ⟨p, hp, rfl⟩)), ?_, ?_⟩
      · exact (target'.trans block).trans target
      · exact Condition.leads_ofSet.mpr ⟨x, hxp, rest⟩

/-- A run of blocks is a run of the states in them. -/
theorem runs_iff (h : Quotient g m i d) {s : Nat} (hs : g.IsLive s) {c : Config} :
    m.Runs probe (d.block s, u) c ↔
      ∃ r, g.IsLive r ∧ d.block r = c.1 ∧ g.Runs probe (s, u) (r, c.2) := by
  constructor
  · intro run
    induction run with
    | refl => exact ⟨s, hs, rfl, .refl⟩
    | @tail b c _ move ih =>
      obtain ⟨r, live, block, run⟩ := ih
      have move' : m.Moves probe (d.block r, b.2) c := block ▸ move
      obtain ⟨t, ht, target, leads⟩ := (h.moves_iff live).mp move'
      exact ⟨t.target, h.intact.isLive_target ht, target, run.tail ⟨t, ht, rfl, leads⟩⟩
  · rintro ⟨r, -, block, run⟩
    generalize hb : (r, c.2) = b at run
    induction run generalizing r c with
    | refl =>
      cases hb
      exact block ▸ .refl
    | @tail b b' run move ih =>
      subst hb
      obtain ⟨t, ht, target, leads⟩ := move
      have live := Runs.isLive h.intact run hs
      refine (ih b.1 (c := (d.block b.1, b.2)) rfl rfl).tail ?_
      exact (h.moves_iff live).mpr ⟨t, ht, by rw [target, block], leads⟩

/-- A block accepts what the states in it accept. -/
theorem ends_iff (h : Quotient g m i d) {s : Nat} (hs : g.IsLive s) :
    m.Ends probe (d.block s) u v ↔ g.Ends probe s u v := by
  constructor
  · rintro ⟨b, run, accepting⟩
    obtain ⟨r, live, block, run⟩ := (h.runs_iff hs).mp run
    simp only at block
    rw [← block, h.isAccepting_block live] at accepting
    exact ⟨r, run, accepting⟩
  · rintro ⟨r, run, accepting⟩
    have live := Runs.isLive h.intact run hs
    refine ⟨d.block r, (h.runs_iff hs).mpr ⟨r, live, rfl, run⟩, ?_⟩
    rw [h.isAccepting_block live, accepting]

theorem accepts_iff (h : Quotient g m i d) (initial : g.initial = some i) {pos : Nat} :
    m.Accepts probe u pos ↔ g.Accepts probe u pos := by
  apply accepts_congr h.initial initial
  intro u v
  exact h.ends_iff h.start

/-- The edges of a block apply where transitions of its states apply. -/
theorem exists_transition (h : Quotient g m i d) {s r : Nat} (hs : g.IsLive s) (hr : g.IsLive r)
    (same : d.block r = d.block s) {b : Nat} {e : Edge ν} (he : e ∈ g.blockEdges d b r) {p : Place}
    (applies : Applies probe p ⟨e, false⟩) :
    ∃ t ∈ g.outgoing s, Applies probe p t ∧ d.block t.target = e.target ∧
      t.condition.isConsuming = e.condition.isConsuming ∧
        (e.condition.isConsuming = false → t.condition = e.condition) := by
  obtain ⟨q, hq⟩ := applies
  rcases mem_blockEdges.mp he with ⟨t, ht, silent, rfl⟩ | ⟨led, hled, rfl⟩
  · obtain ⟨t', ht', condition, block⟩ := h.congruent.silent hr hs same t ht silent
    exact ⟨t', ht', ⟨q, condition ▸ hq⟩, block, by rw [condition], fun _ => condition⟩
  · obtain ⟨free, leads, len⟩ := Condition.step_eq_some_iff.mp hq
    obtain ⟨x, hx, rest⟩ := Condition.leads_ofSet.mp leads
    obtain ⟨l, hl, block, hxl⟩ := ledTo_consumingTo.mp ⟨led, hled, rfl, hx⟩
    obtain ⟨t, ht, hset, target⟩ := mem_consuming.mp hl
    obtain ⟨t', ht', set', hset', hx', block'⟩ :=
      h.congruent.consuming hr hs same t ht _ hset x hxl
    have consuming : t'.condition.isConsuming = true := Condition.isConsuming_of_charSet hset'
    have leads' : t'.condition.Leads probe p.rest q.rest :=
      (Condition.leads_iff_of_charSet hset').mpr ⟨x, hx', rest⟩
    have step := Condition.step_eq_some_iff.mpr
      ⟨Condition.isSigma_of_consuming consuming, leads', len⟩
    refine ⟨t', ht', ⟨q, step⟩, ?_, ?_, ?_⟩
    · rw [block', target, block]
    · rw [consuming, Condition.isConsuming_ofSet]
    · intro silent
      rw [Condition.isConsuming_ofSet] at silent
      cases silent

/-- Where at most one transition applies in a state, at most one applies in its block. -/
theorem settles (h : Quotient g m i d) {s : Nat} (hs : g.IsLive s) {p : Place}
    (k : Settles probe p (g.outgoing s)) : Settles probe p (m.outgoing (d.block s)) := by
  obtain ⟨r, hr, live, same⟩ := h.exists_representative (h.block_lt hs)
  rw [h.outgoing_eq hr]
  constructor
  · intro t out
    obtain ⟨e, he, rfl⟩ := List.mem_map.mp out
    rcases mem_blockEdges.mp he with ⟨t, ht, silent, rfl⟩ | ⟨led, hled, rfl⟩
    · obtain ⟨t', ht', condition, _⟩ := h.congruent.silent live hs same t ht silent
      exact condition ▸ k.1 t' ht'
    · have answers : (Condition.ofSet led.2 : Condition ν).Answers probe p.rest :=
        Condition.answers_of_consuming (Condition.isConsuming_ofSet led.2)
      refine answers.step ?_ List.suffix_rfl
      unfold Condition.ofSet
      split <;> rfl
  · rw [List.pairwise_map]
    refine List.Pairwise.imp_of_mem ?_ pairwise_blockEdges
    rintro e f he hf apart ⟨applies, applies'⟩
    obtain ⟨t, ht, applies, target, kind, condition⟩ :=
      h.exists_transition hs live same he applies
    obtain ⟨t', ht', applies', target', kind', condition'⟩ :=
      h.exists_transition hs live same hf applies'
    have one : t = t' := k.unique ht ht' applies applies'
    subst one
    rcases apart with ne | ⟨ne, silent⟩
    · exact ne (target.symm.trans target')
    · have kinds : e.condition.isConsuming = f.condition.isConsuming := kind.symm.trans kind'
      have both : e.condition.isConsuming = false ∧ f.condition.isConsuming = false :=
        silent.elim (fun k => ⟨k, kinds ▸ k⟩) fun k => ⟨kinds ▸ k, k⟩
      exact ne ((condition both.1).symm.trans (condition' both.2))

/-- The quotient is searched along a single way where the given automaton is. -/
theorem single (h : Quotient g m i d) {earliest : Bool} {window : List Char}
    (k : g.Single probe earliest window i) : m.Single probe earliest window (d.block i) := by
  intro c reach going
  have lifted : ∃ s, g.IsLive s ∧ d.block s = c.1 ∧
      Relation.ReflTransGen (g.Advances probe earliest) (i, window) (s, c.2) := by
    clear going
    induction reach with
    | refl => exact ⟨i, h.start, rfl, .refl⟩
    | @tail b c _ advance ih =>
      obtain ⟨s, live, block, reach⟩ := ih
      obtain ⟨going, move⟩ := advance
      rw [← block, h.isAccepting_block live] at going
      have move' : m.Moves probe (d.block s, b.2) c := block ▸ move
      obtain ⟨t, ht, target, leads⟩ := (h.moves_iff live).mp move'
      exact ⟨t.target, h.intact.isLive_target ht, target,
        reach.tail ⟨going, t, ht, rfl, leads⟩⟩
  obtain ⟨s, live, block, reach⟩ := lifted
  rw [← block, h.isAccepting_block live] at going
  rw [← block]
  exact h.settles live (k (s, c.2) reach going)

/-- A walk through the quotient ends as one through the given automaton does. -/
theorem walk_eq (h : Quotient g m i d) (initial : g.initial = some i) {earliest : Bool}
    {window : List Char} {r : Option Nat} (ok : g.walk probe earliest window = .ok r) :
    m.walk probe earliest window = .ok r := by
  obtain ⟨single, extreme⟩ := walk_spec h.intact initial ok
  obtain ⟨r', ok'⟩ := walk_ok h.initial (h.single single)
  obtain ⟨-, extreme'⟩ := walk_spec h.intact_graph h.initial ok'
  have same : r' = r := extreme'.unique (extreme.congr fun n => (h.accepts_iff initial).symm)
  rw [ok', same]

/-- The nested automata of the quotient answer where those of the given automaton do. -/
theorem answers (h : Quotient g m i d) {window : List Char} (answers : g.Answers probe window) :
    m.Answers probe window := by
  intro b t out nested mode negated hc
  obtain ⟨s, hs, _, _⟩ := h.exists_representative
    (h.isLive_iff.mp (h.intact_graph.isLive_source out))
  rw [h.outgoing_eq hs] at out
  obtain ⟨e, he, rfl⟩ := List.mem_map.mp out
  rcases mem_blockEdges.mp he with ⟨t, ht, silent, rfl⟩ | ⟨led, _, rfl⟩
  · exact answers s t ht nested mode negated hc
  · exact Condition.answers_of_consuming (Condition.isConsuming_ofSet led.2) nested mode negated hc

end Quotient

end

end Graph

end PatternAutomata
