import PatternAutomata.Automaton.Quotient
import PatternAutomata.Proofs.Numbering
import Mathlib.Data.List.Nodup
import Mathlib.Data.List.Sort
import Mathlib.Data.List.Perm.Subperm

/-!
# Divisions become stable

The blocks of a division are numbered in the order of their first states (`Ordered`), so that two
divisions into the same blocks are the same (`eq_of_agree`). Refining takes a division to a finer
one, and one that has as many blocks is the same. There are no more blocks than states, so that the
refinement comes to a stable division (`refineFrom_stable`).
-/
namespace PatternAutomata.Graph.Division

/-- The blocks of some states are numbered in the order in which they first occur. -/
def Ordered (d : Division) (states : List Nat) : Prop :=
  distinct (states.map d.block) = List.range d.size

section
variable {κ : Type} [DecidableEq κ] [Hashable κ]

/-- One more state with its key. -/
def enter (p : Numbering κ × Array Nat) (k : Nat × κ) : Numbering κ × Array Nat :=
  ((p.1.number k.2).1, p.2.setIfInBounds k.1 (p.1.number k.2).2)

theorem ofKeys_eq (slots : Nat) (keys : List (Nat × κ)) :
    ofKeys slots keys =
      ⟨(keys.foldl enter (.empty, .replicate slots 0)).2,
        (keys.foldl enter (.empty, .replicate slots 0)).1.size⟩ := rfl

theorem enter_spec (slots : Nat) (key : Nat → κ) {states : List Nat} (once : states.Nodup)
    (bound : ∀ s ∈ states, s < slots) :
    let p := (states.map fun s => (s, key s)).foldl enter (.empty, .replicate slots 0)
    p.1 = .ofList (states.map key) ∧ p.2.size = slots ∧
      ∀ s ∈ states, p.1.place? (key s) = some (p.2[s]?.getD 0) := by
  induction states using List.reverseRecOn with
  | nil =>
    refine ⟨rfl, by simp, ?_⟩
    intro s hs
    cases hs
  | append_singleton states s ih =>
    obtain ⟨old, -, new⟩ := List.nodup_append.mp once
    obtain ⟨numbers, size, places⟩ := ih old fun r hr => bound r (by simp [hr])
    rw [List.map_append, List.foldl_append, List.map_append]
    simp only [List.map_cons, List.map_nil, List.foldl_cons, List.foldl_nil, enter,
      Numbering.ofList_append, Array.size_setIfInBounds]
    refine ⟨by rw [numbers], size, ?_⟩
    intro r hr
    rw [Array.getElem?_setIfInBounds]
    rcases List.mem_append.mp hr with hr | hr
    · have ne : s ≠ r := fun e => new r hr s (by simp) e.symm
      rw [if_neg ne]
      exact Numbering.place?_number_of_place? (places r hr)
    · have e : r = s := List.mem_singleton.mp hr
      subst e
      rw [if_pos rfl, if_pos (by rw [size]; exact bound r (by simp)), Numbering.place?_number]
      rfl

/-- The blocks of a division by keys are the numbers of the keys. -/
theorem place?_block_ofKeys (slots : Nat) (key : Nat → κ) {states : List Nat} (once : states.Nodup)
    (bound : ∀ s ∈ states, s < slots) :
    let d := ofKeys slots (states.map fun s => (s, key s))
    d.size = (Numbering.ofList (states.map key)).size ∧
      ∀ s ∈ states, (Numbering.ofList (states.map key)).place? (key s) = some (d.block s) := by
  obtain ⟨numbers, -, places⟩ := enter_spec slots key once bound
  rw [ofKeys_eq]
  exact ⟨by rw [numbers], fun s hs => numbers ▸ places s hs⟩

/-- States are in one block exactly if they have equal keys. -/
theorem block_ofKeys (slots : Nat) (key : Nat → κ) {states : List Nat} (once : states.Nodup)
    (bound : ∀ s ∈ states, s < slots) {s r : Nat} (hs : s ∈ states) (hr : r ∈ states) :
    let d := ofKeys slots (states.map fun s => (s, key s))
    d.block s = d.block r ↔ key s = key r := by
  obtain ⟨-, places⟩ := place?_block_ofKeys slots key once bound
  constructor
  · intro same
    have hr' := places r hr
    rw [← same] at hr'
    exact Numbering.eq_of_place? (places s hs) hr'
  · intro same
    have hs' := places s hs
    rw [same, places r hr] at hs'
    exact (Option.some.inj hs').symm

/-- Numbers that are their own places are numbered in order. -/
theorem distinct_eq_range {ns : List Nat} {size : Nat}
    (hsize : (Numbering.ofList ns).size = size)
    (places : ∀ n ∈ ns, (Numbering.ofList ns).place? n = some n) :
    distinct ns = List.range size := by
  have len : (distinct ns).length = size := by rw [← hsize]; exact Array.length_toList
  apply List.ext_getElem
  · rw [len, List.length_range]
  · intro i hi hi'
    have member : (distinct ns)[i] ∈ ns := mem_distinct.mp (List.getElem_mem hi)
    have key := Numbering.place?_eq_some_iff.mp (places _ member)
    rw [← Array.getElem?_toList] at key
    obtain ⟨lt, key⟩ := List.getElem?_eq_some_iff.mp key
    rw [List.getElem_range]
    exact ((nodup_distinct ns).getElem_inj_iff).mp key

theorem ordered_ofKeys (slots : Nat) (key : Nat → κ) {states : List Nat} (once : states.Nodup)
    (bound : ∀ s ∈ states, s < slots) :
    (ofKeys slots (states.map fun s => (s, key s))).Ordered states := by
  obtain ⟨size, places⟩ := place?_block_ofKeys slots key once bound
  have agree (s : Nat) (hs : s ∈ states) (r : Nat) (hr : r ∈ states) :
      (ofKeys slots (states.map fun s => (s, key s))).block s =
        (ofKeys slots (states.map fun s => (s, key s))).block r ↔ key s = key r :=
    block_ofKeys slots key once bound hs hr
  obtain ⟨size', places'⟩ := Numbering.place?_map_congr agree
  apply distinct_eq_range
  · rw [size', size]
  · intro n hn
    obtain ⟨s, hs, rfl⟩ := List.mem_map.mp hn
    rw [places' s hs, places s hs]

end

variable {d e : Division} {states : List Nat}

theorem Ordered.size (h : d.Ordered states) :
    (Numbering.ofList (states.map d.block)).size = d.size := by
  have len := congrArg List.length h
  rw [List.length_range] at len
  rw [← len]
  exact Array.length_toList.symm

theorem Ordered.place? (h : d.Ordered states) {s : Nat} (hs : s ∈ states) :
    (Numbering.ofList (states.map d.block)).place? (d.block s) = some (d.block s) := by
  have member : d.block s ∈ List.range d.size := h ▸ mem_distinct.mpr (List.mem_map_of_mem hs)
  have keys : (Numbering.ofList (states.map d.block)).keys.toList = List.range d.size := h
  rw [Numbering.place?_eq_some_iff, ← Array.getElem?_toList, keys, List.getElem?_range]
  exact List.mem_range.mp member

theorem Ordered.block_lt (h : d.Ordered states) {s : Nat} (hs : s ∈ states) :
    d.block s < d.size := by
  have member : d.block s ∈ List.range d.size := h ▸ mem_distinct.mpr (List.mem_map_of_mem hs)
  exact List.mem_range.mp member

theorem Ordered.exists_block (h : d.Ordered states) {b : Nat} (hb : b < d.size) :
    ∃ s ∈ states, d.block s = b := by
  have member : b ∈ distinct (states.map d.block) := h ▸ List.mem_range.mpr hb
  exact List.mem_map.mp (mem_distinct.mp member)

/-- Divisions into the same blocks are the same. -/
theorem eq_of_agree (hd : d.Ordered states) (he : e.Ordered states)
    (agree : ∀ s ∈ states, ∀ r ∈ states, d.block s = d.block r ↔ e.block s = e.block r) :
    d.size = e.size ∧ ∀ s ∈ states, d.block s = e.block s := by
  obtain ⟨size, places⟩ := Numbering.place?_map_congr agree
  rw [hd.size, he.size] at size
  refine ⟨size, ?_⟩
  intro s hs
  have same := places s hs
  rw [hd.place? hs, he.place? hs] at same
  exact Option.some.inj same

/-- States that the second division tells apart are told apart by the first. -/
def Finer (d e : Division) (states : List Nat) : Prop :=
  ∀ s ∈ states, ∀ r ∈ states, d.block s = d.block r → e.block s = e.block r

/-- A finer division has at least as many blocks, and with equally many blocks it is the same. -/
theorem Finer.size_le (h : d.Finer e states) (hd : d.Ordered states) (he : e.Ordered states) :
    e.size ≤ d.size ∧ (e.size = d.size → ∀ s ∈ states, ∀ r ∈ states,
      d.block s = d.block r ↔ e.block s = e.block r) := by
  have chosen (b : Nat) : ∃ f, ∀ s ∈ states, d.block s = b → e.block s = f := by
    by_cases some : ∃ s ∈ states, d.block s = b
    · obtain ⟨s, hs, rfl⟩ := some
      exact ⟨e.block s, fun r hr same => h r hr s hs same⟩
    · exact ⟨0, fun s hs same => absurd ⟨s, hs, same⟩ some⟩
  choose f hf using chosen
  have covers : List.range e.size ⊆ (List.range d.size).map f := by
    intro c hc
    obtain ⟨s, hs, rfl⟩ := he.exists_block (List.mem_range.mp hc)
    refine List.mem_map.mpr ⟨d.block s, List.mem_range.mpr (hd.block_lt hs), ?_⟩
    exact (hf _ s hs rfl).symm
  have sub := List.nodup_range.subperm covers
  have le := sub.length_le
  rw [List.length_map, List.length_range, List.length_range] at le
  refine ⟨le, ?_⟩
  intro size s hs r hr
  refine ⟨h s hs r hr, ?_⟩
  intro same
  have perm : (List.range e.size).Perm ((List.range d.size).map f) := by
    apply sub.perm_of_length_le
    rw [List.length_map, List.length_range, List.length_range, size]
  have once : ((List.range d.size).map f).Nodup := perm.nodup_iff.mp List.nodup_range
  apply List.inj_on_of_nodup_map once
  · exact List.mem_range.mpr (hd.block_lt hs)
  · exact List.mem_range.mpr (hd.block_lt hr)
  · rw [← hf _ s hs rfl, ← hf _ r hr rfl, same]

theorem Ordered.size_le (h : d.Ordered states) : d.size ≤ states.length := by
  have sub : (distinct (states.map d.block)).Subperm (states.map d.block) :=
    (nodup_distinct _).subperm fun b hb => mem_distinct.mp hb
  have le := sub.length_le
  rw [h, List.length_range, List.length_map] at le
  exact le

/-- What leaves states leads to states again. -/
structure Leads (leaving : Nat → Leaving) (states : List Nat) : Prop where
  state : ∀ s, (leaving s).state = s
  consuming : ∀ s ∈ states, ∀ p ∈ (leaving s).consuming, p.2 ∈ states
  silent : ∀ s ∈ states, ∀ p ∈ (leaving s).silent, p.2 ∈ states

/-- States of one block agree on where everything leads. -/
def Stable (d : Division) (leaving : Nat → Leaving) (states : List Nat) : Prop :=
  ∀ s ∈ states, ∀ r ∈ states, d.block s = d.block r → (leaving s).key d = (leaving r).key d

variable {leaving : Nat → Leaving} {slots : Nat}

/-- Keys depend on the blocks of states only. -/
theorem key_congr (h : Leads leaving states) (same : ∀ s ∈ states, d.block s = e.block s) {s : Nat}
    (hs : s ∈ states) : (leaving s).key d = (leaving s).key e := by
  unfold Leaving.key
  congr 1
  · rw [h.state, same s hs]
  · congr 1
    · apply List.foldl_ext
      intro led p hp
      simp only [same _ (h.consuming s hs p hp)]
    · unfold Leaving.silentTo
      congr 2
      apply List.map_congr_left
      intro p hp
      simp only [same _ (h.silent s hs p hp)]

theorem refine_eq (h : Leads leaving states) (d : Division) :
    refine slots (states.map leaving) d =
      ofKeys slots (states.map fun s => (s, (leaving s).key d)) := by
  unfold refine
  rw [List.map_map]
  congr 1
  apply List.map_congr_left
  intro s _
  exact Prod.ext (h.state s) rfl

theorem ordered_refine (h : Leads leaving states) (once : states.Nodup)
    (bound : ∀ s ∈ states, s < slots) (d : Division) :
    (refine slots (states.map leaving) d).Ordered states := by
  rw [refine_eq h]
  exact ordered_ofKeys slots _ once bound

theorem block_refine (h : Leads leaving states) (once : states.Nodup)
    (bound : ∀ s ∈ states, s < slots) (d : Division) {s r : Nat} (hs : s ∈ states)
    (hr : r ∈ states) :
    (refine slots (states.map leaving) d).block s = (refine slots (states.map leaving) d).block r ↔
      (leaving s).key d = (leaving r).key d := by
  rw [refine_eq h]
  exact block_ofKeys slots _ once bound hs hr

/-- Keys tell apart what was told apart before, as they name the blocks of the states. -/
theorem finer_refine (h : Leads leaving states) (once : states.Nodup)
    (bound : ∀ s ∈ states, s < slots) (d : Division) :
    (refine slots (states.map leaving) d).Finer d states := by
  intro s hs r hr same
  have blocks := congrArg Prod.fst ((block_refine h once bound d hs hr).mp same)
  simpa only [Leaving.key, h.state] using blocks

/-- Refining a division as often as there are states makes it stable. -/
theorem refineFrom_stable (h : Leads leaving states) (once : states.Nodup)
    (bound : ∀ s ∈ states, s < slots) {fuel : Nat} (hd : d.Ordered states)
    (enough : states.length < d.size + fuel) :
    let final := refineFrom slots (states.map leaving) fuel d
    final.Ordered states ∧ final.Finer d states ∧ final.Stable leaving states := by
  induction fuel generalizing d with
  | zero =>
    have := hd.size_le
    omega
  | succ fuel ih =>
    have ordered := ordered_refine h once bound d
    have finer := finer_refine h once bound d
    obtain ⟨le, agree⟩ := finer.size_le ordered hd
    unfold refineFrom
    simp only
    split
    · next size =>
      refine ⟨ordered, finer, ?_⟩
      obtain ⟨-, same⟩ := eq_of_agree ordered hd (agree size.symm)
      intro s hs r hr block
      rw [key_congr h same hs, key_congr h same hr]
      exact (block_refine h once bound d hs hr).mp block
    · next size =>
      obtain ⟨ordered', finer', stable⟩ := ih ordered (by omega)
      exact ⟨ordered', fun s hs r hr same => finer s hs r hr (finer' s hs r hr same), stable⟩

/-- The representatives stand in the order of their blocks. -/
theorem representatives_spec {size : Nat} (h : distinct (states.map d.block) = List.range size) :
    (d.representatives states).map d.block = List.range size ∧
      ∀ s ∈ d.representatives states, s ∈ states := by
  induction states using List.reverseRecOn generalizing size with
  | nil => exact ⟨h, fun s hs => hs⟩
  | append_singleton states s ih =>
    have step : d.representatives (states ++ [s]) =
        if d.block s = (d.representatives states).length then d.representatives states ++ [s]
        else d.representatives states := by
      unfold representatives
      rw [List.foldl_append, List.foldl_cons, List.foldl_nil, Array.length_toList]
      split
      · exact Array.toList_push ..
      · rfl
    rw [List.map_append, List.map_singleton, distinct_append] at h
    split at h
    · next old =>
      obtain ⟨blocks, members⟩ := ih h
      have lt : d.block s < size := List.mem_range.mp (h ▸ mem_distinct.mpr old)
      have len := congrArg List.length blocks
      rw [List.length_map, List.length_range] at len
      rw [step, if_neg (by omega)]
      exact ⟨blocks, fun r hr => List.mem_append_left _ (members r hr)⟩
    · next new =>
      cases size with
      | zero => simp at h
      | succ size =>
        rw [List.range_succ] at h
        obtain ⟨front, last⟩ := List.append_inj' h rfl
        obtain ⟨blocks, members⟩ := ih front
        have len := congrArg List.length blocks
        rw [List.length_map, List.length_range] at len
        have own : d.block s = size := by simpa using last
        rw [step, if_pos (by omega), List.map_append, blocks, List.range_succ, List.map_singleton,
          own]
        refine ⟨rfl, ?_⟩
        intro r hr
        rcases List.mem_append.mp hr with hr | hr
        · exact List.mem_append_left _ (members r hr)
        · exact List.mem_append_right _ hr

end PatternAutomata.Graph.Division
