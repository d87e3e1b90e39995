import PatternAutomata.Proofs.Residuals
import PatternAutomata.Proofs.SigmaFree
import Mathlib.Logic.Relation

/-!
# Refinement finds the coarsest bisimulation

Related states of a bisimulation accept alike, and what leaves one of them is matched, as far as a
division can tell, by what leaves the other one to a related state. To be in one block is a
bisimulation (`bisimulation_division`), every bisimulation relates states of one block only
(`Bisimulation.block_eq`), and an automaton is bisimilar to its quotient (`Quotient.bisimulation`).
-/
namespace PatternAutomata.Graph

/-- What a division can tell about a condition: whether it consumes a character, whether it
consumes at all, and which one it is if it does not. -/
inductive Trait {ν : Type} : (Condition ν → Prop) → Prop where
  | takes (x : Char) : Trait fun c => c.Takes x
  | consumes : Trait fun c => c.isConsuming = true
  | silent (c : Condition ν) (h : c.isConsuming = false) : Trait (· = c)

/-- Related states accept alike, and their transitions match in every trait, up to related
targets. -/
structure Bisimulation {ν : Type} (g h : Graph ν) (R : Nat → Nat → Prop) : Prop where
  accepting : ∀ s r, R s r → g.isAccepting s = h.isAccepting r
  forth : ∀ s r, R s r → ∀ K, Trait K → ∀ t ∈ g.outgoing s, K t.condition →
    ∃ u ∈ h.outgoing r, K u.condition ∧ R t.target u.target
  back : ∀ s r, R s r → ∀ K, Trait K → ∀ u ∈ h.outgoing r, K u.condition →
    ∃ t ∈ g.outgoing s, K t.condition ∧ R t.target u.target

namespace Bisimulation

variable {ν : Type} {g h k : Graph ν} {R S : Nat → Nat → Prop}

theorem symm (b : Bisimulation g h R) : Bisimulation h g (flip R) :=
  ⟨fun s r related => (b.accepting r s related).symm, fun s r related => b.back r s related,
    fun s r related => b.forth r s related⟩

theorem comp (b : Bisimulation g h R) (c : Bisimulation h k S) :
    Bisimulation g k (Relation.Comp R S) := by
  refine ⟨?_, ?_, ?_⟩
  · rintro s r ⟨q, hR, hS⟩
    exact (b.accepting s q hR).trans (c.accepting q r hS)
  · rintro s r ⟨q, hR, hS⟩ K trait t ht holds
    obtain ⟨u, hu, holds', target⟩ := b.forth s q hR K trait t ht holds
    obtain ⟨v, hv, holds'', target'⟩ := c.forth q r hS K trait u hu holds'
    exact ⟨v, hv, holds'', u.target, target, target'⟩
  · rintro s r ⟨q, hR, hS⟩ K trait v hv holds
    obtain ⟨u, hu, holds', target'⟩ := c.back q r hS K trait v hv holds
    obtain ⟨t, ht, holds'', target⟩ := b.back s q hR K trait u hu holds'
    exact ⟨t, ht, holds'', u.target, target, target'⟩

/-- Of a symmetric relation it suffices to know one half. -/
theorem of_symmetric (symmetric : ∀ s r, R s r → R r s)
    (accepting : ∀ s r, R s r → g.isAccepting s = g.isAccepting r)
    (forth : ∀ s r, R s r → ∀ K, Trait K → ∀ t ∈ g.outgoing s, K t.condition →
      ∃ u ∈ g.outgoing r, K u.condition ∧ R t.target u.target) : Bisimulation g g R := by
  refine ⟨accepting, forth, ?_⟩
  intro s r related K trait u hu holds
  obtain ⟨t, ht, holds', target⟩ := forth r s (symmetric s r related) K trait u hu holds
  exact ⟨t, ht, holds', symmetric _ _ target⟩

end Bisimulation

section
variable {l l' : Leaving} {d e : Division}

theorem precedes_iff {p q : Nat × Nat} :
    precedes p q = true ↔ p.1 < q.1 ∨ p.1 = q.1 ∧ p.2 ≤ q.2 := by
  simp [precedes]

/-- The listed conditions and blocks determine the list. -/
theorem silentTo_eq (same : ∀ p, p ∈ l.silentTo d ↔ p ∈ l'.silentTo e) :
    l.silentTo d = l'.silentTo e := by
  have once (l : Leaving) (d : Division) : (l.silentTo d).Nodup :=
    (List.mergeSort_perm _ _).nodup_iff.mpr (nodup_distinct _)
  have sorted (l : Leaving) (d : Division) :
      (l.silentTo d).Pairwise fun p q => precedes p q = true := by
    apply List.pairwise_mergeSort
    · intro a b c
      simp only [precedes_iff]
      omega
    · intro a b
      simp only [Bool.or_eq_true, precedes_iff]
      omega
  refine List.Perm.eq_of_pairwise ?_ (sorted l d) (sorted l' e)
    ((List.perm_ext_iff_of_nodup (once l d) (once l' e)).mpr same)
  intro p q _ _ le ge
  rw [precedes_iff] at le ge
  exact Prod.ext (by omega) (by omega)

end

section
variable {ν : Type} [DecidableEq ν] [Hashable ν] {g m : Graph ν} {d e : Division}
  {R : Nat → Nat → Prop} {i s r : Nat}

/-- The states are in one block. -/
def SameBlock (g : Graph ν) (d : Division) (s r : Nat) : Prop :=
  g.IsLive s ∧ g.IsLive r ∧ d.block s = d.block r

omit [DecidableEq ν] [Hashable ν] in
theorem SameBlock.symm (h : g.SameBlock d s r) : g.SameBlock d r s := ⟨h.2.1, h.1, h.2.2.symm⟩

/-- A transition whose condition has the trait leads from the state to the block. -/
def Sends (g : Graph ν) (d : Division) (K : Condition ν → Prop) (s b : Nat) : Prop :=
  ∃ t ∈ g.outgoing s, K t.condition ∧ d.block t.target = b

section
variable {conditions : Numbering (Condition ν)} {b : Nat}

theorem ledTo_iff_sends {x : Char} :
    LedTo ((g.leaving conditions s).consumingTo d) b x ↔ g.Sends d (·.Takes x) s b := by
  rw [ledTo_iff_goes]
  constructor
  · rintro ⟨_, ⟨t, ht, takes, rfl⟩, block⟩
    exact ⟨t, ht, takes, block⟩
  · rintro ⟨t, ht, takes, block⟩
    exact ⟨t.target, ⟨t, ht, takes, rfl⟩, block⟩

theorem listed_iff_sends : (∃ p ∈ (g.leaving conditions s).consumingTo d, p.1 = b) ↔
    g.Sends d (fun c => c.isConsuming = true) s b := by
  rw [exists_mem_consumingTo]
  simp only [mem_consuming]
  constructor
  · rintro ⟨q, ⟨t, ht, hset, target⟩, block⟩
    exact ⟨t, ht, Condition.isConsuming_of_charSet hset, target ▸ block⟩
  · rintro ⟨t, ht, consuming, block⟩
    rw [Condition.isConsuming_eq, Option.isSome_iff_exists] at consuming
    obtain ⟨set, hset⟩ := consuming
    exact ⟨(set, t.target), ⟨t, ht, hset, rfl⟩, block⟩

theorem mem_silentTo_iff_sends {n : Nat} {c : Condition ν} (hn : conditions.place? c = some n) :
    (n, b) ∈ (g.leaving conditions s).silentTo d ↔ g.Sends d (· = c) s b := by
  rw [mem_silentTo]
  simp only [mem_silent]
  constructor
  · rintro ⟨q, ⟨t, ht, place, target⟩, number, block⟩
    exact ⟨t, ht, Numbering.eq_of_place? (number ▸ place) hn, target ▸ block⟩
  · rintro ⟨t, ht, rfl, block⟩
    exact ⟨(n, t.target), ⟨t, ht, hn, rfl⟩, rfl, block⟩

end

theorem exists_of_mem_silentTo {p : Nat × Nat}
    (hp : p ∈ (g.leaving g.silentConditions s).silentTo d) :
    ∃ c : Condition ν, c.isConsuming = false ∧ g.silentConditions.place? c = some p.1 := by
  obtain ⟨q, hq, number, -⟩ := mem_silentTo.mp hp
  obtain ⟨t, -, place, -⟩ := mem_silent.mp hq
  have member := Numbering.place?_isSome_iff.mp (Option.isSome_of_eq_some place)
  have silent := (List.mem_filter.mp (Numbering.mem_ofList.mp member)).2
  exact ⟨t.condition, by simpa using silent, number ▸ place⟩

/-- The keys of two states are equal if the states send alike, in every trait. -/
theorem key_eq_iff (hg : g.Intact) :
    (g.leaving g.silentConditions s).key d = (g.leaving g.silentConditions r).key d ↔
      d.block s = d.block r ∧ ∀ K, Trait K → ∀ b, g.Sends d K s b ↔ g.Sends d K r b := by
  have place {s b : Nat} {c : Condition ν} (silent : c.isConsuming = false)
      (sends : g.Sends d (· = c) s b) : ∃ n, g.silentConditions.place? c = some n := by
    obtain ⟨t, ht, rfl, -⟩ := sends
    exact exists_silentCondition hg ht silent
  constructor
  · intro same
    simp only [Leaving.key, Prod.mk.injEq] at same
    obtain ⟨block, consuming, silent⟩ := same
    refine ⟨block, ?_⟩
    rintro _ (x | - | ⟨c, hc⟩) b
    · simpa only [ledTo_iff_sends, eq_iff_iff] using congrArg (LedTo · b x) consuming
    · simpa only [listed_iff_sends, eq_iff_iff] using
        congrArg (fun led => ∃ p ∈ led, p.1 = b) consuming
    · constructor
      · intro sends
        obtain ⟨n, hn⟩ := place hc sends
        rwa [← mem_silentTo_iff_sends hn, ← silent, mem_silentTo_iff_sends hn]
      · intro sends
        obtain ⟨n, hn⟩ := place hc sends
        rwa [← mem_silentTo_iff_sends hn, silent, mem_silentTo_iff_sends hn]
  · rintro ⟨block, sends⟩
    simp only [Leaving.key, Prod.mk.injEq]
    refine ⟨block, eq_of_rise pairwise_consumingTo pairwise_consumingTo (fun b => ?_)
      fun b x => ?_, silentTo_eq fun p => ?_⟩
    · rw [listed_iff_sends, listed_iff_sends, sends _ .consumes]
    · rw [ledTo_iff_sends, ledTo_iff_sends, sends _ (.takes x)]
    · constructor
      · intro hp
        obtain ⟨c, silent, hn⟩ := exists_of_mem_silentTo hp
        rw [mem_silentTo_iff_sends hn] at hp ⊢
        exact (sends _ (.silent c silent) p.2).mp hp
      · intro hp
        obtain ⟨c, silent, hn⟩ := exists_of_mem_silentTo hp
        rw [mem_silentTo_iff_sends hn] at hp ⊢
        exact (sends _ (.silent c silent) p.2).mpr hp

/-- In a stable division that tells accepting states from others, to be in one block is a
bisimulation. -/
theorem bisimulation_of_stable (hg : g.Intact)
    (stable : d.Stable (g.leaving g.silentConditions) g.liveStates)
    (accepting : ∀ s ∈ g.liveStates, ∀ r ∈ g.liveStates, d.block s = d.block r →
      g.isAccepting s = g.isAccepting r) : Bisimulation g g (g.SameBlock d) := by
  refine .of_symmetric (fun s r => SameBlock.symm) ?_ ?_
  · rintro s r ⟨hs, hr, same⟩
    exact accepting s (mem_liveStates.mpr hs) r (mem_liveStates.mpr hr) same
  · rintro s r ⟨hs, hr, same⟩ K trait t ht holds
    have keys := stable s (mem_liveStates.mpr hs) r (mem_liveStates.mpr hr) same
    obtain ⟨u, hu, holds', block⟩ :=
      (((key_eq_iff hg).mp keys).2 K trait (d.block t.target)).mp ⟨t, ht, holds, rfl⟩
    exact ⟨u, hu, holds', hg.isLive_target ht, hg.isLive_target hu, block.symm⟩

theorem bisimulation_division (hg : g.Intact) (hi : g.IsLive i) :
    Bisimulation g g (g.SameBlock g.division) := by
  obtain ⟨-, stable, accepting⟩ := stable_division hg hi
  exact bisimulation_of_stable hg stable accepting

namespace Bisimulation

variable (b : Bisimulation g g R) (hg : g.Intact) (live : ∀ s r, R s r → g.IsLive s ∧ g.IsLive r)

include b hg live

/-- Where related states are in one block, they stay in one block when the division is refined. -/
theorem refine (coarse : ∀ s r, R s r → e.block s = e.block r) : ∀ s r, R s r →
    (Division.refine g.states.size (g.liveStates.map (g.leaving g.silentConditions)) e).block s =
      (Division.refine g.states.size
        (g.liveStates.map (g.leaving g.silentConditions)) e).block r := by
  intro s r related
  obtain ⟨hs, hr⟩ := live s r related
  rw [Division.refine_eq (leads_leaving hg g.silentConditions)]
  apply (Division.block_ofKeys _ _ (nodup_liveStates g) (fun s => lt_of_mem_liveStates)
    (mem_liveStates.mpr hs) (mem_liveStates.mpr hr)).mpr
  refine (key_eq_iff hg).mpr ⟨coarse s r related, fun K trait x => ⟨?_, ?_⟩⟩
  · rintro ⟨t, ht, holds, rfl⟩
    obtain ⟨u, hu, holds', targets⟩ := b.forth s r related K trait t ht holds
    exact ⟨u, hu, holds', (coarse _ _ targets).symm⟩
  · rintro ⟨u, hu, holds, rfl⟩
    obtain ⟨t, ht, holds', targets⟩ := b.back s r related K trait u hu holds
    exact ⟨t, ht, holds', coarse _ _ targets⟩

theorem refineFrom (coarse : ∀ s r, R s r → e.block s = e.block r) (fuel : Nat) : ∀ s r, R s r →
    (Division.refineFrom g.states.size (g.liveStates.map (g.leaving g.silentConditions)) fuel
      e).block s = (Division.refineFrom g.states.size
        (g.liveStates.map (g.leaving g.silentConditions)) fuel e).block r := by
  induction fuel generalizing e with
  | zero => exact coarse
  | succ fuel ih =>
    have finer := b.refine hg live coarse
    unfold Division.refineFrom
    simp only
    split
    · exact finer
    · exact ih finer

/-- States that some bisimulation relates are in one block. -/
theorem block_eq : ∀ s r, R s r → g.division.block s = g.division.block r := by
  apply b.refineFrom hg live
  intro s r related
  obtain ⟨hs, hr⟩ := live s r related
  apply (Division.block_ofKeys _ _ (nodup_liveStates g) (fun s => lt_of_mem_liveStates)
    (mem_liveStates.mpr hs) (mem_liveStates.mpr hr)).mpr
  exact b.accepting s r related

end Bisimulation

/-- What leaves a block in the quotient has the traits of what leaves its representative. -/
theorem exists_mem_blockEdges {K : Condition ν → Prop} (trait : Trait K) {b x : Nat} :
    (∃ e ∈ g.blockEdges d b s, K e.condition ∧ e.target = x) ↔ g.Sends d K s x := by
  constructor
  · rintro ⟨e, he, holds, rfl⟩
    rcases mem_blockEdges.mp he with ⟨t, ht, -, rfl⟩ | ⟨p, hp, rfl⟩
    · exact ⟨t, ht, holds, rfl⟩
    · rcases trait with x | - | ⟨c, silent⟩
      · exact ledTo_iff_sends.mp ⟨p, hp, rfl, Condition.takes_ofSet.mp holds⟩
      · exact listed_iff_sends.mp ⟨p, hp, rfl⟩
      · have consuming : (Condition.ofSet p.2 : Condition ν).isConsuming = true :=
          Condition.isConsuming_ofSet p.2
        rw [show Condition.ofSet p.2 = c from holds, silent] at consuming
        cases consuming
  · intro sends
    rcases trait with y | - | ⟨c, silent⟩
    · obtain ⟨p, hp, block, taken⟩ := ledTo_iff_sends.mpr sends
      exact ⟨_, mem_blockEdges.mpr (.inr ⟨p, hp, rfl⟩), Condition.takes_ofSet.mpr taken, block⟩
    · obtain ⟨p, hp, block⟩ := listed_iff_sends.mpr sends
      exact ⟨_, mem_blockEdges.mpr (.inr ⟨p, hp, rfl⟩), Condition.isConsuming_ofSet p.2, block⟩
    · obtain ⟨t, ht, rfl, block⟩ := sends
      exact ⟨_, mem_blockEdges.mpr (.inl ⟨t, ht, silent, rfl⟩), rfl, block⟩

/-- An automaton is bisimilar to its quotient. -/
theorem Quotient.bisimulation (q : Quotient g m i d) (b : Bisimulation g g (g.SameBlock d)) :
    Bisimulation g m fun s x => g.IsLive s ∧ d.block s = x := by
  refine ⟨?_, ?_, ?_⟩
  · rintro s _ ⟨hs, rfl⟩
    exact (q.isAccepting_block hs).symm
  · rintro s _ ⟨hs, rfl⟩ K trait t ht holds
    obtain ⟨r, hr, live, same⟩ := q.exists_representative (q.block_lt hs)
    obtain ⟨u, hu, holds', -, -, block⟩ := b.forth s r ⟨hs, live, same.symm⟩ K trait t ht holds
    obtain ⟨e, he, holds'', target⟩ := (exists_mem_blockEdges trait).mpr ⟨u, hu, holds', rfl⟩
    refine ⟨⟨e, false⟩, ?_, holds'', q.intact.isLive_target ht, block.trans target.symm⟩
    rw [q.outgoing_eq hr]
    exact List.mem_map_of_mem he
  · rintro s _ ⟨hs, rfl⟩ K trait u hu holds
    obtain ⟨r, hr, live, same⟩ := q.exists_representative (q.block_lt hs)
    rw [q.outgoing_eq hr] at hu
    obtain ⟨e, he, rfl⟩ := List.mem_map.mp hu
    obtain ⟨t, ht, holds', block⟩ := (exists_mem_blockEdges trait).mp ⟨e, he, holds, rfl⟩
    obtain ⟨t', ht', holds'', -, live', block'⟩ :=
      b.forth r s ⟨live, hs, same⟩ K trait t ht holds'
    exact ⟨t', ht', holds'', live', block'.symm.trans block⟩

end

end PatternAutomata.Graph
