import PatternAutomata.CharSet.Basic
import Mathlib.Data.List.Basic

/-!
# Laws of sets of characters

What the operations on sets do to the characters in them.
-/
namespace PatternAutomata

theorem ordinal_last : (Char.ofNat 0x10FFFF).ordinal.val = Char.numCodePoints - 1 := by decide

theorem ordinal_first : ('\x00').ordinal.val = 0 := by decide

theorem ordinal_lt (c : Char) : c.ordinal.val < Char.numCodePoints := c.ordinal.isLt

theorem mem_ofOrdinals? {a b : Nat} {r : Interval} (h : Interval.ofOrdinals? a b = some r) :
    r.lo.ordinal.val = a ∧ r.hi.ordinal.val + 1 = b := by
  unfold Interval.ofOrdinals? at h
  split at h
  · next k =>
    cases h
    simp
    omega
  · cases h

theorem exists_ofOrdinals? {a b : Nat} (h : a < b) (hb : b ≤ Char.numCodePoints) :
    ∃ r, Interval.ofOrdinals? a b = some r := by
  unfold Interval.ofOrdinals?
  rw [dif_pos ⟨h, hb⟩]
  exact ⟨_, rfl⟩

theorem mem_toList_ofOrdinals? {a b : Nat} (hb : b ≤ Char.numCodePoints) {c : Char} :
    (∃ r ∈ (Interval.ofOrdinals? a b).toList, c ∈ r) ↔ a ≤ c.ordinal.val ∧ c.ordinal.val < b := by
  by_cases h : a < b
  · obtain ⟨r, hr⟩ := exists_ofOrdinals? h hb
    obtain ⟨lo, hi⟩ := mem_ofOrdinals? hr
    simp only [hr, Option.toList_some, List.mem_singleton, exists_eq_left, Interval.mem_iff_ordinal]
    omega
  · have none : Interval.ofOrdinals? a b = none := dif_neg fun k => h k.1
    simp only [none, Option.toList_none, List.not_mem_nil, false_and, exists_false, false_iff]
    omega

/-- The characters of an interval, whichever end is given first. -/
theorem Interval.between_of_le {a b : Char} (h : a ≤ b) : Interval.between a b = ⟨a, b, h⟩ := by
  simp [Interval.between, h]

@[simp]
theorem Interval.between_ends (r : Interval) : Interval.between r.lo r.hi = r :=
  Interval.between_of_le r.lo_le_hi

theorem Interval.mem_between_iff {a b c : Char} :
    c ∈ Interval.between a b ↔ a ≤ c ∧ c ≤ b ∨ b ≤ c ∧ c ≤ a := by
  unfold between
  split
  · next h =>
    refine ⟨.inl, fun k => k.elim id fun k => ?_⟩
    exact ⟨Char.le_trans h k.1, Char.le_trans k.2 h⟩
  · next h =>
    have le := (Char.le_total a b).resolve_left h
    refine ⟨.inr, fun k => k.elim (fun k => ?_) id⟩
    exact ⟨Char.le_trans le k.1, Char.le_trans k.2 le⟩

/-- The characters of an interval whose ends are in order. -/
theorem Interval.mem_between {a b c : Char} (h : a.ordinal.val ≤ b.ordinal.val) :
    c ∈ Interval.between a b ↔ a.ordinal.val ≤ c.ordinal.val ∧ c.ordinal.val ≤ b.ordinal.val := by
  have le : a ≤ b := Char.le_iff_ordinal_le.mpr h
  simp [between, le, mem_iff_ordinal]

theorem Interval.mem_single {a c : Char} : c ∈ Interval.single a ↔ c = a := by
  rw [mem_iff, single]
  exact ⟨fun h => Char.le_antisymm h.2 h.1, fun h => h ▸ ⟨Char.le_refl _, Char.le_refl _⟩⟩

theorem Interval.eq_of_ends {r s : Interval} (lo : r.lo = s.lo) (hi : r.hi = s.hi) : r = s := by
  cases r
  cases s
  cases lo
  cases hi
  rfl

theorem Interval.eq_single {r : Interval} (h : r.lo = r.hi) : r = Interval.single r.lo :=
  Interval.eq_of_ends rfl h.symm

/-- A character below the first of some separated intervals is in none of the others. -/
theorem Interval.not_mem_of_lt {r : Interval} {l : List Interval}
    (separated : (r :: l).Pairwise Interval.Before) {c : Char}
    (lt : c.ordinal.val < r.lo.ordinal.val) : ∀ s ∈ l, c ∉ s := by
  intro s hs mem
  have before : r.hi.ordinal.val + 1 < s.lo.ordinal.val := (List.pairwise_cons.mp separated).1 s hs
  have le := r.ordinal_lo_le
  have inside := Interval.mem_iff_ordinal.mp mem
  omega

/-- A character of intervals that come after a separated one is not in that one. -/
theorem Interval.not_mem_of_before {r : Interval} {l : List Interval} (before : ∀ s ∈ l, r.Before s)
    {c : Char} (hc : ∃ s ∈ l, c ∈ s) : c ∉ r := by
  obtain ⟨s, hs, hc⟩ := hc
  have gap : r.hi.ordinal.val + 1 < s.lo.ordinal.val := before s hs
  have inside := Interval.mem_iff_ordinal.mp hc
  intro here
  have := Interval.mem_iff_ordinal.mp here
  omega

namespace CharSet

variable {s t : CharSet} {c : Char}

@[simp]
theorem mem_union : c ∈ s ∪ t ↔ c ∈ s ∨ c ∈ t := by
  refine mem_ofIntervals.trans ?_
  simp only [List.mem_merge, or_and_right, exists_or, mem_iff]

theorem mem_range_iff {a b : Char} : c ∈ range a b ↔ c ∈ Interval.between a b := by
  simp [range, mem_iff]

theorem mem_range {a b : Char} (h : a ≤ b) : c ∈ range a b ↔ a ≤ c ∧ c ≤ b := by
  simp [range, mem_iff, Interval.between, h, Interval.mem_iff]

theorem mem_any (c : Char) : c ∈ any := by
  have := ordinal_lt c
  rw [any, mem_range (by decide), Char.le_iff_ordinal_le, Char.le_iff_ordinal_le, Fin.le_def,
    Fin.le_def, ordinal_first, ordinal_last]
  omega

@[simp]
theorem mem_single {d : Char} : c ∈ single d ↔ c = d := by
  simp [single, mem_iff, Interval.mem_single]

/-- Between the intervals and after them lies what is in none of them. -/
theorem mem_gapsFrom {l : List Interval} {start : Nat} (separated : l.Pairwise Interval.Before)
    (ahead : ∀ r ∈ l, start ≤ r.lo.ordinal.val) :
    (∃ r ∈ gapsFrom start l, c ∈ r) ↔ start ≤ c.ordinal.val ∧ ∀ r ∈ l, c ∉ r := by
  induction l generalizing start with
  | nil =>
    have := ordinal_lt c
    rw [gapsFrom, mem_toList_ofOrdinals? (Nat.le_refl _)]
    simp [this]
  | cons r rest ih =>
    obtain ⟨before, separated'⟩ := List.pairwise_cons.mp separated
    obtain ⟨first, ahead⟩ := List.forall_mem_cons.mp ahead
    have behind : ∀ s ∈ rest, r.hi.ordinal.val + 1 ≤ s.lo.ordinal.val := fun s hs =>
      Nat.le_of_lt (before s hs)
    have le := r.ordinal_lo_le
    have small := ordinal_lt r.lo
    have gap : (∃ t ∈ (Interval.ofOrdinals? start r.lo.ordinal.val).toList, c ∈ t) ↔
        start ≤ c.ordinal.val ∧ c.ordinal.val < r.lo.ordinal.val :=
      mem_toList_ofOrdinals? (by omega)
    simp only [gapsFrom, List.mem_append, or_and_right, exists_or, gap, ih separated' behind,
      List.forall_mem_cons, Interval.mem_iff_ordinal (r := r)]
    constructor
    · rintro (⟨low, high⟩ | ⟨low, others⟩)
      · exact ⟨low, by omega, Interval.not_mem_of_lt separated high⟩
      · exact ⟨by omega, by omega, others⟩
    · rintro ⟨low, out, others⟩
      by_cases high : c.ordinal.val < r.lo.ordinal.val
      · exact .inl ⟨low, high⟩
      · exact .inr ⟨by omega, others⟩

/-- The complement of a set has all other characters. -/
theorem mem_negate : c ∈ s.negate ↔ c ∉ s := by
  refine mem_ofIntervals.trans ((mem_gapsFrom s.separated fun _ _ => Nat.zero_le _).trans ?_)
  simp [mem_iff]

theorem not_mem_empty : c ∉ (∅ : CharSet) := by simp [mem_iff, EmptyCollection.emptyCollection]

@[simp]
theorem mem_ofRanges {ranges : List (Char × Char)} :
    c ∈ ofRanges ranges ↔ ∃ r ∈ ranges, c ∈ Interval.between r.1 r.2 := by
  rw [ofRanges, mem_ofIntervals]
  simp

@[simp]
theorem mem_inter : c ∈ s ∩ t ↔ c ∈ s ∧ c ∈ t := by
  have unfolded : c ∈ s ∩ t ↔ c ∈ (s.negate ∪ t.negate).negate := Iff.rfl
  rw [unfolded, mem_negate, mem_union, mem_negate, mem_negate, not_or, not_not, not_not]

theorem mem_diff : c ∈ s \ t ↔ c ∈ s ∧ c ∉ t := by
  have unfolded : c ∈ s \ t ↔ c ∈ s ∩ t.negate := Iff.rfl
  rw [unfolded, mem_inter, mem_negate]

/-- No character of separated intervals comes before the first interval. -/
theorem lo_le_of_mem {r : Interval} {rs : List Interval}
    (separated : (r :: rs).Pairwise Interval.Before) {c : Char} (hc : ∃ s ∈ r :: rs, c ∈ s) :
    r.lo.ordinal.val ≤ c.ordinal.val ∧ (c ∈ r ∨ r.hi.ordinal.val + 1 < c.ordinal.val) := by
  obtain ⟨s, hs, hc⟩ := hc
  have inside := Interval.mem_iff_ordinal.mp hc
  rcases List.mem_cons.mp hs with rfl | hs
  · exact ⟨inside.1, .inl hc⟩
  · have before : r.hi.ordinal.val + 1 < s.lo.ordinal.val :=
      (List.pairwise_cons.mp separated).1 s hs
    have le := r.ordinal_lo_le
    exact ⟨by omega, .inr (by omega)⟩

/-- If the characters of the second intervals are among those of the first, their first interval
starts no earlier, and if it starts together with the other one, it ends no later. -/
theorem first_le {r s : Interval} {rs ss : List Interval}
    (hr : (r :: rs).Pairwise Interval.Before)
    (sub : ∀ c, (∃ t ∈ s :: ss, c ∈ t) → ∃ t ∈ r :: rs, c ∈ t) :
    r.lo.ordinal.val ≤ s.lo.ordinal.val ∧
      (r.lo = s.lo → s.hi.ordinal.val ≤ r.hi.ordinal.val) := by
  have le := s.ordinal_lo_le
  constructor
  · have start : s.lo ∈ s := Interval.mem_iff_ordinal.mpr ⟨Nat.le_refl _, le⟩
    exact (lo_le_of_mem hr (sub s.lo ⟨s, List.mem_cons_self .., start⟩)).1
  · intro same
    by_contra beyond
    -- The character behind the one interval is in the other one, but in none of the others.
    have bound : r.hi.ordinal.val + 1 < Char.numCodePoints := by
      have := s.hi.ordinal.isLt
      omega
    have ordinal : (Char.ofOrdinal ⟨r.hi.ordinal.val + 1, bound⟩).ordinal.val =
        r.hi.ordinal.val + 1 := by
      rw [Char.ordinal_ofOrdinal]
    have here : Char.ofOrdinal ⟨r.hi.ordinal.val + 1, bound⟩ ∈ s := by
      have := r.ordinal_lo_le
      rw [Interval.mem_iff_ordinal, ordinal, ← same]
      omega
    rcases (lo_le_of_mem hr (sub _ ⟨s, List.mem_cons_self .., here⟩)).2 with inside | behind
    · have := Interval.mem_iff_ordinal.mp inside
      omega
    · omega

/-- Separated intervals with the same characters start with the same interval. -/
theorem first_eq {r s : Interval} {rs ss : List Interval} (hr : (r :: rs).Pairwise Interval.Before)
    (hs : (s :: ss).Pairwise Interval.Before)
    (same : ∀ c, (∃ t ∈ r :: rs, c ∈ t) ↔ ∃ t ∈ s :: ss, c ∈ t) : r = s := by
  have up := first_le hr fun c => (same c).mpr
  have down := first_le hs fun c => (same c).mp
  have lo : r.lo = s.lo := Char.ordinal_injective (Fin.ext (by omega))
  have le := up.2 lo
  have ge := down.2 lo.symm
  exact Interval.eq_of_ends lo (Char.ordinal_injective (Fin.ext (by omega)))

theorem intervals_ext {rs ss : List Interval} (hr : rs.Pairwise Interval.Before)
    (hs : ss.Pairwise Interval.Before)
    (same : ∀ c, (∃ t ∈ rs, c ∈ t) ↔ ∃ t ∈ ss, c ∈ t) : rs = ss := by
  have filled {r : Interval} {rs : List Interval} : ∃ t ∈ r :: rs, r.lo ∈ t :=
    ⟨r, List.mem_cons_self .., Interval.mem_iff_ordinal.mpr ⟨Nat.le_refl _, r.ordinal_lo_le⟩⟩
  induction rs generalizing ss with
  | nil =>
    cases ss with
    | nil => rfl
    | cons s ss =>
      obtain ⟨t, ht, -⟩ := (same s.lo).mpr filled
      cases ht
  | cons r rs ih =>
    cases ss with
    | nil =>
      obtain ⟨t, ht, -⟩ := (same r.lo).mp filled
      cases ht
    | cons s ss =>
      cases first_eq hr hs same
      obtain ⟨before, hr'⟩ := List.pairwise_cons.mp hr
      obtain ⟨before', hs'⟩ := List.pairwise_cons.mp hs
      congr 1
      apply ih hr' hs'
      intro c
      have all := same c
      simp only [List.mem_cons, exists_eq_or_imp] at all
      constructor
      · intro hc
        exact (all.mp (.inr hc)).resolve_left (Interval.not_mem_of_before before hc)
      · intro hc
        exact (all.mpr (.inr hc)).resolve_left (Interval.not_mem_of_before before' hc)

/-- A set of characters has one form only. -/
theorem ext_mem {s t : CharSet} (same : ∀ c, c ∈ s ↔ c ∈ t) : s = t := by
  obtain ⟨rs, hr⟩ := s
  obtain ⟨ss, hs⟩ := t
  have equal : rs = ss := intervals_ext hr hs same
  subst equal
  rfl

/-- The character of a set is told if there is no other one in it. -/
theorem single?_eq_some_iff : s.single? = some c ↔ ∀ d, d ∈ s ↔ d = c := by
  constructor
  · intro h d
    unfold single? at h
    split at h
    · next r row =>
      split at h
      · next same =>
        cases h
        simp only [mem_iff, row, List.mem_singleton, exists_eq_left]
        rw [Interval.eq_single same, Interval.mem_single]
        rfl
      · cases h
    · cases h
  · intro only
    rw [ext_mem fun d => (only d).trans mem_single.symm]
    exact if_pos rfl

end CharSet

end PatternAutomata
