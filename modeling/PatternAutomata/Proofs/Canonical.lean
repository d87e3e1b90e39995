import PatternAutomata.Proofs.Ranks
import PatternAutomata.Proofs.Residuals

/-!
# Canonical automata

A canonical automaton is reduced, lists what leaves a state by the targets, and is built from its
first state to its last one. Canonical automata that admit the same texts are the same
(`Canonical.eq_of_alike`). The quotient of an automaton whose states are ranked and admit some text
each is canonical (`Quotient.canonical`).
-/
namespace PatternAutomata.Graph

variable {ν : Type}

/-- The transitions of a state that lead where a list says. -/
def listed (b : Nat) (led : List (Nat × CharSet)) : List (Transition ν) :=
  led.map fun p => ⟨⟨b, p.1, .ofSet p.2⟩, false⟩

/-- A reduced automaton in which nothing but the admitted texts decides how it is written down. -/
structure Canonical (g : Graph ν) (i n : Nat) : Prop extends Reduced g i n where
  outgoing_eq : ∀ b, ∃ led, Listing led ∧ g.outgoing b = listed b led
  graph : ∃ tag, g = build tag ((List.range n).map g.isAccepting)
    ((List.range n).flatMap fun b => (g.outgoing b).map (·.toEdge)) (some i)

variable {g m : Graph ν} {i n b c s r : Nat} {x : Char} {w : List Char}

theorem goes_of_listed {led : List (Nat × CharSet)} (outgoing : g.outgoing b = listed b led) :
    g.Goes b x c ↔ LedTo led c x := by
  unfold Goes LedTo
  rw [outgoing]
  constructor
  · rintro ⟨t, ht, takes, target⟩
    obtain ⟨p, hp, rfl⟩ := List.mem_map.mp ht
    exact ⟨p, hp, target, Condition.takes_ofSet.mp takes⟩
  · rintro ⟨p, hp, target, hx⟩
    exact ⟨_, List.mem_map_of_mem hp, Condition.takes_ofSet.mpr hx, target⟩

theorem consuming_of_listed (outgoing : ∀ b, ∃ led, Listing led ∧ g.outgoing b = listed b led) :
    g.Consuming := by
  intro b t ht
  obtain ⟨led, -, same⟩ := outgoing b
  rw [same] at ht
  obtain ⟨p, -, rfl⟩ := List.mem_map.mp ht
  exact Condition.isConsuming_ofSet p.2

/-- A reduced automaton goes where another one goes whose states admit the same texts. -/
theorem Reduced.goes {h : Graph ν} (hg : g.Reduced i n) (hh : h.Reduced i n)
    (alike : ∀ s < n, Alike g h s s) (lt : b < n) (goes : g.Goes b x c) : h.Goes b x c := by
  obtain ⟨p, goes', alike'⟩ :=
    (alike b lt).goes hg.lettered hh.lettered hg.intact hg.productive goes
  have hc : c < n := (hg.isLive_iff c).mp (goes.isLive hg.intact)
  have hp : p < n := (hh.isLive_iff p).mp (goes'.isLive hh.intact)
  have same := hh.apart c p hc hp ((alike c hc).symm.trans alike')
  exact same ▸ goes'

namespace Canonical

/-- Canonical automata that admit the same texts differ in their tags only. -/
theorem eq_of_alike {h : Graph ν} {j n' : Nat} (hg : g.Canonical i n) (hh : h.Canonical j n')
    (start : Alike g h i j) : { g with tag := h.tag } = h := by
  obtain ⟨rfl, rfl, alike⟩ := hg.toReduced.agree hh.toReduced start
  have accepting : (List.range n).map g.isAccepting = (List.range n).map h.isAccepting := by
    apply List.map_congr_left
    intro s hs
    have same := alike s (List.mem_range.mp hs) []
    rw [admits_nil, admits_nil] at same
    exact Bool.eq_iff_iff.mpr same
  have edges : ((List.range n).flatMap fun b => (g.outgoing b).map (·.toEdge)) =
      (List.range n).flatMap fun b => (h.outgoing b).map (·.toEdge) := by
    apply congrArg List.flatten
    apply List.map_congr_left
    intro b hb
    have lt := List.mem_range.mp hb
    obtain ⟨led, listing, same⟩ := hg.outgoing_eq b
    obtain ⟨led', listing', same'⟩ := hh.outgoing_eq b
    have equal : led = led' := by
      apply listing.ext listing'
      intro c x
      rw [← goes_of_listed same, ← goes_of_listed same']
      constructor
      · exact hg.toReduced.goes hh.toReduced alike lt
      · exact hh.toReduced.goes hg.toReduced (fun s hs => (alike s hs).symm) lt
    rw [same, same', equal]
  obtain ⟨tag, hg'⟩ := hg.graph
  obtain ⟨tag', hh'⟩ := hh.graph
  calc
    { g with tag := h.tag } = build h.tag ((List.range n).map g.isAccepting)
        ((List.range n).flatMap fun b => (g.outgoing b).map (·.toEdge)) (some i) :=
      (congrArg (fun k : Graph ν => { k with tag := h.tag }) hg').trans (tag_build h.tag)
    _ = build h.tag ((List.range n).map h.isAccepting)
        ((List.range n).flatMap fun b => (h.outgoing b).map (·.toEdge)) (some i) := by
      rw [accepting, edges]
    _ = { h with tag := h.tag } :=
      ((congrArg (fun k : Graph ν => { k with tag := h.tag }) hh').trans (tag_build h.tag)).symm
    _ = h := rfl

end Canonical

/-- If all states are live that have a number below a bound, the live states are these numbers. -/
theorem liveStates_eq (live : ∀ s, g.IsLive s ↔ s < n) : g.liveStates = List.range n := by
  have rise : g.liveStates.Pairwise (· < ·) := List.pairwise_lt_range.filter _
  apply rise.eq_of_mem_iff List.pairwise_lt_range
  intro s
  rw [mem_liveStates, live, List.mem_range]

/-- In front of the first state of a block there are only states of earlier blocks. -/
theorem Division.Ordered.first_le {e : Division} (ordered : e.Ordered (List.range n))
    (hs : s < n) (hr : r < n) (first : ∀ q < s, e.block q ≠ e.block s)
    (le : e.block s ≤ e.block r) : s ≤ r := by
  by_contra before
  have split : (List.range n).map e.block =
      (List.range r).map e.block ++ e.block r :: ((List.range n).drop (r + 1)).map e.block := by
    have parts := List.take_append_drop r (List.range n)
    rw [List.drop_eq_getElem_cons (by simpa using hr), List.take_range, List.getElem_range,
      Nat.min_eq_left (Nat.le_of_lt hr)] at parts
    conv => lhs; rw [← parts]
    rw [List.map_append, List.map_cons]
  have placeR := ordered.place? (List.mem_range.mpr hr)
  have placeS := ordered.place? (List.mem_range.mpr hs)
  rw [split] at placeR placeS
  rcases Numbering.mem_of_number_le placeR placeS le with known | same
  · obtain ⟨q, hq, block⟩ := List.mem_map.mp known
    have lt := List.mem_range.mp hq
    exact first q (by omega) block
  · exact first r (Nat.not_le.mp before) same.symm

namespace Quotient

variable [DecidableEq ν] [Hashable ν] {e : Division}

theorem blockEdges_eq (consuming : ∀ t ∈ g.outgoing s, t.condition.isConsuming = true) :
    g.blockEdges e b s =
      ((g.leaving .empty s).consumingTo e).map fun p => ⟨b, p.1, .ofSet p.2⟩ := by
  have silent : (g.outgoing s).filter (fun t => !t.condition.isConsuming) = [] := by
    apply List.filter_eq_nil_iff.mpr
    intro t ht
    rw [consuming t ht]
    decide
  unfold blockEdges
  rw [silent]
  rfl

/-- What leaves a block is listed if all transitions of its representative take characters. -/
theorem outgoing_eq_listed (h : Quotient g m i e)
    (hs : (e.representatives g.liveStates)[b]? = some s)
    (takes : ∀ t ∈ g.outgoing s, ∃ x, t.condition.Takes x) :
    m.outgoing b = listed b ((g.leaving .empty s).consumingTo e) := by
  have consuming : ∀ t ∈ g.outgoing s, t.condition.isConsuming = true := by
    intro t ht
    obtain ⟨x, takes⟩ := takes t ht
    exact takes.consuming
  rw [h.outgoing_eq hs, blockEdges_eq consuming, List.map_map]
  rfl

theorem outgoing_eq_nil (h : Quotient g m i e) (dead : ¬ m.IsLive b) : m.outgoing b = [] :=
  List.eq_nil_iff_forall_not_mem.mpr fun _ ht => dead (h.intact_graph.isLive_source ht)

theorem outgoing_listed (h : Quotient g m i e) (filled : g.Filled) (b : Nat) :
    ∃ led, Listing led ∧ m.outgoing b = listed b led := by
  by_cases live : m.IsLive b
  · obtain ⟨s, hs, -, -⟩ := h.exists_representative (h.isLive_iff.mp live)
    exact ⟨_, listing_leaving (filled s), h.outgoing_eq_listed hs (filled s)⟩
  · exact ⟨[], ⟨.nil, by simp⟩, h.outgoing_eq_nil live⟩

/-- A block sorts the characters if no two transitions of its representative take the same one.
Different transitions of the block lead to different states in any case. -/
theorem sorts (h : Quotient g m i e) (hs : (e.representatives g.liveStates)[b]? = some s)
    (takes : ∀ t ∈ g.outgoing s, ∃ x, t.condition.Takes x)
    (single : (g.outgoing s).Pairwise fun t t' =>
      ∀ x, ¬ (t.condition.Takes x ∧ t'.condition.Takes x)) : m.Sorts b := by
  have listing : Listing ((g.leaving .empty s).consumingTo e) := listing_leaving takes
  refine ⟨?_, ?_⟩
  · intro t ht
    rw [h.outgoing_eq_listed hs takes] at ht
    obtain ⟨p, hp, rfl⟩ := List.mem_map.mp ht
    obtain ⟨x, hx⟩ := listing.filled p hp
    exact ⟨x, Condition.takes_ofSet.mpr hx⟩
  · rw [h.outgoing_eq_listed hs takes, listed, List.pairwise_map]
    refine listing.rise.imp_of_mem fun {p p'} hp hp' (lt : p.1 < p'.1) => ⟨Nat.ne_of_lt lt, ?_⟩
    rintro x ⟨first, second⟩
    have target {p : Nat × CharSet} (hp : p ∈ (g.leaving .empty s).consumingTo e)
        (hx : (Condition.ofSet p.2 : Condition ν).Takes x) : ∃ r, g.Goes s x r ∧ e.block r = p.1 :=
      ledTo_iff_goes.mp ⟨p, hp, rfl, Condition.takes_ofSet.mp hx⟩
    obtain ⟨r, goes, block⟩ := target hp first
    obtain ⟨r', goes', block'⟩ := target hp' second
    rw [goes.unique single goes', block'] at block
    exact Nat.ne_of_gt lt block

/-- The quotient is built from its own states and transitions, in their order. -/
theorem eq_build (h : Quotient g m i e) : ∃ tag, m =
    build tag ((List.range e.size).map m.isAccepting)
      ((List.range e.size).flatMap fun b => (m.outgoing b).map (·.toEdge)) (some (e.block i)) := by
  obtain ⟨tag, graph⟩ := h.graph
  have numbers : ((e.representatives g.liveStates).zipIdx).map Prod.snd = List.range e.size := by
    rw [List.zipIdx_map_snd, h.length_representatives, List.range_eq_range']
  have states : ((e.representatives g.liveStates).zipIdx).map Prod.fst =
      e.representatives g.liveStates := List.zipIdx_map_fst ..
  refine ⟨tag, graph.trans ?_⟩
  congr 1
  · rw [← numbers]
    nth_rewrite 1 [← states]
    rw [List.map_map, List.map_map]
    apply List.map_congr_left
    rintro ⟨s, b⟩ hp
    have key := List.mem_zipIdx_iff_getElem?.mp hp
    obtain ⟨r, hr, live, block⟩ :=
      h.exists_representative (h.length_representatives ▸ (List.getElem?_eq_some_iff.mp key).1)
    cases hr.symm.trans key
    have accepting := h.isAccepting_block live
    rw [block] at accepting
    exact accepting.symm
  · rw [← numbers, List.flatMap_map]
    apply congrArg List.flatten
    apply List.map_congr_left
    rintro ⟨s, b⟩ hp
    rw [h.outgoing_eq (List.mem_zipIdx_iff_getElem?.mp hp), List.map_map]
    exact (List.map_id _).symm

theorem exists_state (h : Quotient g m i e) (hb : b < e.size) :
    ∃ s, g.IsLive s ∧ e.block s = b := by
  obtain ⟨s, -, live, block⟩ := h.exists_representative hb
  exact ⟨s, live, block⟩

section

variable (h : Quotient g m i e) (lettered : g.Lettered) (filled : g.Filled)

include h lettered filled

omit lettered in
theorem consuming : m.Consuming :=
  consuming_of_listed (h.outgoing_listed filled)

theorem spells_iff (hs : g.IsLive s) :
    m.Spells (e.block s) w c ↔ ∃ r, g.IsLive r ∧ e.block r = c ∧ g.Spells s w r := by
  have probe : Probe ν := fun _ _ _ => .ok true
  rw [← runs_iff_spells (h.consuming filled) probe, h.runs_iff hs]
  simp only [runs_iff_spells lettered.consuming]

theorem admits_iff (hs : g.IsLive s) : m.Admits (e.block s) w ↔ g.Admits s w := by
  have probe : Probe ν := fun _ _ _ => .ok true
  rw [← ends_iff_admits (h.consuming filled) probe, h.ends_iff hs,
    ends_iff_admits lettered.consuming]

theorem lettered_graph : m.Lettered := by
  refine ⟨h.consuming filled, ?_⟩
  intro b
  by_cases live : m.IsLive b
  · obtain ⟨s, hs, -⟩ := h.exists_representative (h.isLive_iff.mp live)
    exact (h.sorts hs (filled s) (lettered.single s)).single
  · rw [h.outgoing_eq_nil live]
    exact .nil

theorem productive_graph (productive : g.Productive) : m.Productive := by
  intro b live
  obtain ⟨s, hs, rfl⟩ := h.exists_state (h.isLive_iff.mp live)
  obtain ⟨w, admits⟩ := productive s hs
  exact ⟨w, (h.admits_iff lettered filled hs).mpr admits⟩

/-- Blocks are ranked if states are. -/
theorem ranked_graph (live : ∀ s, g.IsLive s ↔ s < n) (ranked : g.Ranked i n) :
    m.Ranked (e.block i) e.size := by
  classical
  have ordered : e.Ordered (List.range n) := liveStates_eq live ▸ h.ordered
  intro b hb
  -- The first text of a block is that of its first state.
  obtain ⟨q, hq, block⟩ := h.exists_state hb
  have some : ∃ s, g.IsLive s ∧ e.block s = b := ⟨q, hq, block⟩
  obtain ⟨hs, own⟩ := Nat.find_spec some
  have first (q : Nat) (lt : q < Nat.find some) : e.block q ≠ e.block (Nat.find some) := by
    intro same
    have early : g.IsLive q := (live q).mpr (Nat.lt_trans lt ((live _).mp hs))
    exact Nat.find_min some lt ⟨early, same.trans own⟩
  obtain ⟨w, spells, least⟩ := ranked _ ((live _).mp hs)
  refine ⟨w, (h.spells_iff lettered filled h.start).mpr ⟨_, hs, own, spells⟩, ?_⟩
  intro c hc le v spells'
  obtain ⟨r, hr, rfl, there⟩ := (h.spells_iff lettered filled h.start).mp spells'
  have lt := (live r).mp hr
  have behind : Nat.find some ≤ r := ordered.first_le ((live _).mp hs) lt first (own.symm ▸ le)
  exact least r lt behind v there

end

/-- The quotient by what states admit is canonical. -/
theorem canonical (h : Quotient g m i g.division) (lettered : g.Lettered) (filled : g.Filled)
    (productive : g.Productive) (live : ∀ s, g.IsLive s ↔ s < n) (ranked : g.Ranked i n) :
    m.Canonical (g.division.block i) g.division.size where
  intact := h.intact_graph
  lettered := h.lettered_graph lettered filled
  productive := h.productive_graph lettered filled productive
  isLive_iff _ := h.isLive_iff
  start := h.block_lt h.start
  apart := by
    intro b c hb hc alike
    obtain ⟨s, hs, rfl⟩ := h.exists_state hb
    obtain ⟨r, hr, rfl⟩ := h.exists_state hc
    apply (block_eq_iff lettered h.intact productive filled h hs hr).mpr
    intro w
    rw [← h.admits_iff lettered filled hs, alike, h.admits_iff lettered filled hr]
  ranked := h.ranked_graph lettered filled live ranked
  outgoing_eq := h.outgoing_listed filled
  graph := h.eq_build

end Quotient

end PatternAutomata.Graph
