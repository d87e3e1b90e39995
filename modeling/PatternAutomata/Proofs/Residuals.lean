import PatternAutomata.Proofs.Letters
import PatternAutomata.Proofs.Minimized

/-!
# Blocks are what their states admit

Let an automaton read letters only, and let every state of it admit some text. Refining its division
never parts states that admit the same texts, because a set of characters has one form only
(`CharSet.ext_mem`). In the end the states of a block are those that admit the same texts
(`block_eq_iff`).
-/
namespace PatternAutomata

namespace Graph

section
variable {led led' : List (Nat × CharSet)} (rise : led.Pairwise fun p q => p.1 < q.1)
  (rise' : led'.Pairwise fun p q => p.1 < q.1)

include rise

theorem unique_of_rise {p q : Nat × CharSet} (hp : p ∈ led) (hq : q ∈ led) (same : p.1 = q.1) :
    p = q := by
  have once : (led.map Prod.fst).Nodup := (List.pairwise_map.mpr rise).nodup
  exact List.inj_on_of_nodup_map once hp hq same

include rise'

theorem mem_of_rise (listed : ∀ p ∈ led, ∃ q ∈ led', q.1 = p.1)
    (same : ∀ b c, LedTo led b c ↔ LedTo led' b c) {p : Nat × CharSet} (hp : p ∈ led) :
    p ∈ led' := by
  obtain ⟨q, hq, block⟩ := listed p hp
  have chars : p.2 = q.2 := by
    apply CharSet.ext_mem
    intro x
    constructor
    · intro hx
      obtain ⟨q', hq', block', hx'⟩ := (same p.1 x).mp ⟨p, hp, rfl, hx⟩
      exact unique_of_rise rise' hq' hq (block'.trans block.symm) ▸ hx'
    · intro hx
      obtain ⟨p', hp', block', hx'⟩ := (same p.1 x).mpr ⟨q, hq, block, hx⟩
      exact unique_of_rise rise hp' hp block' ▸ hx'
  exact Prod.ext block.symm chars ▸ hq

/-- A rising list is determined by its blocks and by where characters lead. -/
theorem eq_of_rise (listed : ∀ b, (∃ p ∈ led, p.1 = b) ↔ ∃ p ∈ led', p.1 = b)
    (same : ∀ b c, LedTo led b c ↔ LedTo led' b c) : led = led' := by
  have irreflexive : Std.Irrefl fun p q : Nat × CharSet => p.1 < q.1 := ⟨fun p => Nat.lt_irrefl p.1⟩
  have antisymmetric : Std.Antisymm fun p q : Nat × CharSet => p.1 < q.1 :=
    ⟨fun p q lt lt' => absurd lt' (Nat.lt_asymm lt)⟩
  apply rise.eq_of_mem_iff rise'
  intro p
  constructor
  · exact mem_of_rise rise rise' (fun q hq => (listed q.1).mp ⟨q, hq, rfl⟩) same
  · exact mem_of_rise rise' rise (fun q hq => (listed q.1).mpr ⟨q, hq, rfl⟩)
      fun b c => (same b c).symm

end

/-- Blocks in rising order, each with some characters that lead there. -/
structure Listing (led : List (Nat × CharSet)) : Prop where
  rise : led.Pairwise fun p q => p.1 < q.1
  filled : ∀ p ∈ led, ∃ c, c ∈ p.2

namespace Listing

variable {led led' : List (Nat × CharSet)}

theorem exists_mem_iff (h : Listing led) {b : Nat} :
    (∃ p ∈ led, p.1 = b) ↔ ∃ c, LedTo led b c := by
  constructor
  · rintro ⟨p, hp, block⟩
    obtain ⟨c, hc⟩ := h.filled p hp
    exact ⟨c, p, hp, block, hc⟩
  · rintro ⟨c, p, hp, block, -⟩
    exact ⟨p, hp, block⟩

/-- Where characters lead determines the list. -/
theorem ext (h : Listing led) (h' : Listing led') (same : ∀ b c, LedTo led b c ↔ LedTo led' b c) :
    led = led' := by
  refine eq_of_rise h.rise h'.rise (fun b => ?_) same
  simp only [h.exists_mem_iff, h'.exists_mem_iff, same]

end Listing

theorem filled_addLed {led : List (Nat × CharSet)} {block : Nat} {s : CharSet}
    (some : ∃ c, c ∈ s) (filled : ∀ p ∈ led, ∃ c, c ∈ p.2) :
    ∀ p ∈ addLed block s led, ∃ c, c ∈ p.2 := by
  induction led with
  | nil =>
    intro p hp
    rw [addLed, List.mem_singleton] at hp
    exact hp ▸ some
  | cons l rest ih =>
    obtain ⟨first, others⟩ := List.forall_mem_cons.mp filled
    unfold addLed
    split
    · exact List.forall_mem_cons.mpr ⟨some, filled⟩
    · split
      · obtain ⟨c, hc⟩ := first
        exact List.forall_mem_cons.mpr ⟨⟨c, CharSet.mem_union.mpr (.inl hc)⟩, others⟩
      · exact List.forall_mem_cons.mpr ⟨first, ih others⟩

theorem listing_consumingTo {l : Leaving} {e : Division}
    (filled : ∀ p ∈ l.consuming, ∃ c, c ∈ p.1) : Listing (l.consumingTo e) := by
  refine ⟨pairwise_consumingTo, ?_⟩
  unfold Leaving.consumingTo
  suffices kept : ∀ led : List (Nat × CharSet), (∀ p ∈ led, ∃ c, c ∈ p.2) →
      ∀ p ∈ l.consuming.foldl (fun led p => addLed (e.block p.2) p.1 led) led, ∃ c, c ∈ p.2 from
    kept [] (by simp)
  generalize l.consuming = ps at filled
  induction ps with
  | nil =>
    intro led kept
    exact kept
  | cons q qs ih =>
    obtain ⟨first, others⟩ := List.forall_mem_cons.mp filled
    intro led kept
    exact ih others _ (filled_addLed first kept)

section

variable {ν : Type} [DecidableEq ν] [Hashable ν] {g m : Graph ν} {e : Division} {i s r : Nat}

/-- Characters lead to the blocks of the states that they lead to. -/
theorem ledTo_iff_goes {conditions : Numbering (Condition ν)} {b : Nat} {c : Char} :
    LedTo ((g.leaving conditions s).consumingTo e) b c ↔ ∃ q, g.Goes s c q ∧ e.block q = b := by
  rw [ledTo_consumingTo]
  simp only [mem_consuming]
  constructor
  · rintro ⟨p, ⟨t, ht, hset, target⟩, block, hc⟩
    exact ⟨t.target, ⟨t, ht, ⟨p.1, hset, hc⟩, rfl⟩, target ▸ block⟩
  · rintro ⟨q, ⟨t, ht, ⟨set, hset, hc⟩, target⟩, block⟩
    exact ⟨(set, t.target), ⟨t, ht, hset, rfl⟩, target ▸ block, hc⟩

theorem listing_leaving (filled : ∀ t ∈ g.outgoing s, ∃ x, t.condition.Takes x)
    {conditions : Numbering (Condition ν)} : Listing ((g.leaving conditions s).consumingTo e) := by
  apply listing_consumingTo
  intro p hp
  obtain ⟨t, ht, hset, -⟩ := mem_consuming.mp hp
  obtain ⟨x, set, hset', hx⟩ := filled t ht
  cases hset.symm.trans hset'
  exact ⟨x, hx⟩

/-- No transition is silent if all consume characters. -/
theorem silent_eq_nil (consuming : g.Consuming) : (g.leaving g.silentConditions s).silent = [] := by
  apply List.eq_nil_iff_forall_not_mem.mpr
  intro p hp
  obtain ⟨t, ht, place, -⟩ := mem_silent.mp hp
  have member := Numbering.place?_isSome_iff.mp (Option.isSome_of_eq_some place)
  have silent := (List.mem_filter.mp (Numbering.mem_ofList.mp member)).2
  rw [consuming s t ht] at silent
  cases silent

/-- States that admit the same texts are in one block. -/
def Coarse (g : Graph ν) (e : Division) : Prop :=
  ∀ s r, g.IsLive s → g.IsLive r → Alike g g s r → e.block s = e.block r

section

variable (lettered : g.Lettered) (intact : g.Intact) (productive : g.Productive)
  (filled : g.Filled)

include lettered intact productive filled

/-- States that admit the same texts agree on where everything leads, up to blocks. -/
theorem Coarse.key_eq (coarse : g.Coarse e) (hs : g.IsLive s) (hr : g.IsLive r)
    (alike : Alike g g s r) :
    (g.leaving g.silentConditions s).key e = (g.leaving g.silentConditions r).key e := by
  have follow {s r : Nat} (alike : Alike g g s r) {b : Nat} {c : Char}
      (led : ∃ q, g.Goes s c q ∧ e.block q = b) : ∃ q, g.Goes r c q ∧ e.block q = b := by
    obtain ⟨q, goes, block⟩ := led
    obtain ⟨p, goes', alike'⟩ := alike.goes lettered lettered intact productive goes
    have same := coarse q p (goes.isLive intact) (goes'.isLive intact) alike'
    exact ⟨p, goes', same.symm.trans block⟩
  have leads : (g.leaving g.silentConditions s).consumingTo e =
      (g.leaving g.silentConditions r).consumingTo e := by
    apply (listing_leaving (filled _)).ext (listing_leaving (filled _))
    intro b c
    rw [ledTo_iff_goes, ledTo_iff_goes]
    exact ⟨follow alike, follow alike.symm⟩
  unfold Leaving.key
  rw [leads, Leaving.silentTo, Leaving.silentTo, silent_eq_nil lettered.consuming,
    silent_eq_nil lettered.consuming]
  exact congrArg (·, _) (coarse s r hs hr alike)

/-- One refinement does not part states that admit the same texts. -/
theorem Coarse.refine (coarse : g.Coarse e) : g.Coarse
    (Division.refine g.states.size (g.liveStates.map (g.leaving g.silentConditions)) e) := by
  intro s r hs hr alike
  rw [Division.refine_eq (leads_leaving intact g.silentConditions)]
  apply (Division.block_ofKeys _ _ (List.nodup_range.filter _) (fun s => lt_of_mem_liveStates)
    (mem_liveStates.mpr hs) (mem_liveStates.mpr hr)).mpr
  exact coarse.key_eq lettered intact productive filled hs hr alike

theorem Coarse.refineFrom (coarse : g.Coarse e) (fuel : Nat) : g.Coarse
    (Division.refineFrom g.states.size (g.liveStates.map (g.leaving g.silentConditions)) fuel
      e) := by
  induction fuel generalizing e with
  | zero => exact coarse
  | succ fuel ih =>
    have finer := coarse.refine lettered intact productive filled
    unfold Division.refineFrom
    simp only
    split
    · exact finer
    · exact ih finer

theorem coarse_division : g.Coarse g.division := by
  apply Coarse.refineFrom lettered intact productive filled
  intro s r hs hr alike
  apply (Division.block_ofKeys _ _ (List.nodup_range.filter _) (fun s => lt_of_mem_liveStates)
    (mem_liveStates.mpr hs) (mem_liveStates.mpr hr)).mpr
  have same := alike []
  rw [admits_nil, admits_nil] at same
  exact Bool.eq_iff_iff.mpr same

/-- The states of a block are those that admit the same texts. -/
theorem block_eq_iff (h : Quotient g m i g.division) (hs : g.IsLive s) (hr : g.IsLive r) :
    g.division.block s = g.division.block r ↔ Alike g g s r := by
  constructor
  · intro same w
    have probe : Probe ν := fun _ _ _ => .ok true
    rw [← ends_iff_admits lettered.consuming probe, ← ends_iff_admits lettered.consuming probe,
      ← h.ends_iff hs, ← h.ends_iff hr, same]
  · exact coarse_division lettered intact productive filled s r hs hr

end

end

end Graph

end PatternAutomata
