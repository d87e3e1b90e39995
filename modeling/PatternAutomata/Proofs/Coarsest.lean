import PatternAutomata.Proofs.Bisimulations
import PatternAutomata.Proofs.Canonical
import PatternAutomata.Proofs.Equivalent
import PatternAutomata.Proofs.Transforms
import Mathlib.Order.Bounds.Defs

/-!
# The quotient is by the coarsest equivalence

An equivalence of states is respected by an automaton if equivalent states accept alike and agree,
for every class, on the characters and on the other conditions that lead there. To be in one block
is the largest such equivalence, and the quotient has one state for each of its classes, in the
order in which they first occur (`minimize_coarsest`).
-/
namespace PatternAutomata.Graph

variable {ν : Type} {g : Graph ν} {R : Nat → Nat → Prop}

/-- No transition waits for a character of an empty set. -/
def Occupied (g : Graph ν) : Prop :=
  ∀ t ∈ g.liveTransitions, ∀ set, t.1.condition = .set set → set.isEmpty = false

/-- An equivalence of live states that acceptance and transitions agree with. A class is given by a
state in it. -/
structure Respects (g : Graph ν) (R : Nat → Nat → Prop) : Prop where
  live : ∀ s r, R s r → g.IsLive s ∧ g.IsLive r
  refl : ∀ s, g.IsLive s → R s s
  symm : ∀ s r, R s r → R r s
  trans : ∀ s r q, R s r → R r q → R s q
  accepting : ∀ s r, R s r → g.isAccepting s = g.isAccepting r
  consuming : ∀ s r, R s r → ∀ q, g.IsLive q → ∀ x,
    (∃ t ∈ g.outgoing s, t.condition.Takes x ∧ R t.target q) ↔
      ∃ t ∈ g.outgoing r, t.condition.Takes x ∧ R t.target q
  silent : ∀ s r, R s r → ∀ q, g.IsLive q → ∀ c : Condition ν, c.isConsuming = false →
    ((∃ t ∈ g.outgoing s, t.condition = c ∧ R t.target q) ↔
      ∃ t ∈ g.outgoing r, t.condition = c ∧ R t.target q)

theorem Occupied.takes (occupied : g.Occupied) (hg : g.Intact) {s : Nat} {t : Transition ν}
    (ht : t ∈ g.outgoing s) (consuming : t.condition.isConsuming = true) :
    ∃ x, t.condition.Takes x := by
  obtain ⟨n, hn⟩ := hg.mem_liveTransitions ht
  cases hc : t.condition with
  | char c => exact ⟨c, .single c, rfl, CharSet.mem_single.mpr rfl⟩
  | set set =>
    obtain ⟨x, hx⟩ := CharSet.exists_mem (occupied _ hn set hc)
    exact ⟨x, set, rfl, hx⟩
  | sigma => cases consuming.symm.trans (congrArg Condition.isConsuming hc)
  | check nested mode negated => cases consuming.symm.trans (congrArg Condition.isConsuming hc)

/-- An equivalence that the automaton respects is a bisimulation. -/
theorem Respects.bisimulation (k : g.Respects R) (hg : g.Intact) (occupied : g.Occupied) :
    Bisimulation g g R := by
  have taken (s r : Nat) (related : R s r) (x : Char) (t : Transition ν) (ht : t ∈ g.outgoing s)
      (takes : t.condition.Takes x) :
      ∃ u ∈ g.outgoing r, u.condition.Takes x ∧ R t.target u.target := by
    have live := hg.isLive_target ht
    obtain ⟨u, hu, takes', target⟩ :=
      (k.consuming s r related t.target live x).mp ⟨t, ht, takes, k.refl _ live⟩
    exact ⟨u, hu, takes', k.symm _ _ target⟩
  refine .of_symmetric k.symm k.accepting ?_
  rintro s r related _ (x | - | ⟨c, silent⟩) t ht holds
  · exact taken s r related x t ht holds
  · obtain ⟨x, takes⟩ := occupied.takes hg ht holds
    obtain ⟨u, hu, takes', target⟩ := taken s r related x t ht takes
    exact ⟨u, hu, takes'.consuming, target⟩
  · have live := hg.isLive_target ht
    obtain ⟨u, hu, same, target⟩ :=
      (k.silent s r related t.target live c silent).mp ⟨t, ht, holds, k.refl _ live⟩
    exact ⟨u, hu, same, k.symm _ _ target⟩

/-- Where to be in one block is a bisimulation, the automaton respects it. -/
theorem respects_sameBlock {d : Division} (b : Bisimulation g g (g.SameBlock d)) :
    g.Respects (g.SameBlock d) := by
  have trans (s r q : Nat) (h : g.SameBlock d s r) (k : g.SameBlock d r q) : g.SameBlock d s q :=
    ⟨h.1, k.2.1, h.2.2.trans k.2.2⟩
  have carry {s r q : Nat} (related : g.SameBlock d s r) {K : Condition ν → Prop} (trait : Trait K)
      (h : ∃ t ∈ g.outgoing s, K t.condition ∧ g.SameBlock d t.target q) :
      ∃ u ∈ g.outgoing r, K u.condition ∧ g.SameBlock d u.target q := by
    obtain ⟨t, ht, holds, into⟩ := h
    obtain ⟨u, hu, holds', target⟩ := b.forth s r related K trait t ht holds
    exact ⟨u, hu, holds', trans _ _ _ target.symm into⟩
  refine ⟨fun s r h => ⟨h.1, h.2.1⟩, fun s hs => ⟨hs, hs, rfl⟩, fun s r => SameBlock.symm, trans,
    b.accepting, ?_, ?_⟩
  · intro s r related q _ x
    exact ⟨carry related (.takes x), carry related.symm (.takes x)⟩
  · intro s r related q _ c silent
    exact ⟨carry related (.silent c silent), carry related.symm (.silent c silent)⟩

section
variable [DecidableEq ν] [Hashable ν]

/-- To be in one block of the division is the coarsest equivalence that the automaton respects. -/
theorem isGreatest_sameBlock (hg : g.Intact) {i : Nat} (hi : g.IsLive i) (occupied : g.Occupied) :
    IsGreatest {R | g.Respects R} (g.SameBlock g.division) := by
  refine ⟨respects_sameBlock (bisimulation_division hg hi), ?_⟩
  intro R respects s r related
  obtain ⟨hs, hr⟩ := respects.live s r related
  have b : Bisimulation g g R := respects.bisimulation hg occupied
  exact ⟨hs, hr, b.block_eq hg respects.live s r related⟩

/-- The states of a quotient are its blocks, in the order in which they first occur. -/
theorem Quotient.liveStates_eq {m : Graph ν} {i : Nat} {d : Division} (q : Quotient g m i d) :
    m.liveStates = distinct (g.liveStates.map d.block) := by
  rw [Graph.liveStates_eq fun s => q.isLive_iff]
  exact q.ordered.symm

/-- The states of the quotient are the classes of the coarsest equivalence that the automaton
respects, in the order in which they first occur. They accept and go on as the states of their
classes do. -/
theorem minimize_coarsest (hg : g.HasHistory) {i : Nat} (initial : g.initial = some i)
    (occupied : g.Occupied) (tag : Nat) :
    ∃ m, g.minimize tag = .ok m ∧ IsGreatest {R | g.Respects R} (g.SameBlock g.division) ∧
      m.liveStates = distinct (g.liveStates.map g.division.block) ∧
        m.initial = some (g.division.block i) ∧
          Bisimulation g m fun s b => g.IsLive s ∧ g.division.block s = b := by
  have live := hg.intact.initial_live i initial
  obtain ⟨m, ok, q⟩ := minimize_spec hg.intact initial tag
  exact ⟨m, ok, isGreatest_sameBlock hg.intact live occupied, q.liveStates_eq, q.initial,
    q.bisimulation (bisimulation_division hg.intact live)⟩

end

theorem occupied_guarded : guarded.Occupied := by
  intro t ht set hc
  rw [liveTransitions_guarded] at ht
  simp only [List.mem_cons, List.not_mem_nil, or_false] at ht
  rcases ht with rfl | rfl <;> cases hc

theorem minimize_coarsest_guarded : guarded.HasHistory ∧ guarded.initial = some 0 ∧
    guarded.Occupied ∧ ∃ m, guarded.minimize 2 = .ok m ∧
      IsGreatest {R | guarded.Respects R} (guarded.SameBlock guarded.division) ∧
        m.liveStates = distinct ([0, 1, 2].map guarded.division.block) ∧
          m.initial = some (guarded.division.block 0) := by
  obtain ⟨m, ok, greatest, states, initial, -⟩ :=
    minimize_coarsest hasHistory_guarded initial_guarded occupied_guarded 2
  exact ⟨hasHistory_guarded, initial_guarded, occupied_guarded, m, ok, greatest, states, initial⟩

end PatternAutomata.Graph
