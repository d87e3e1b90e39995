import PatternAutomata.Pattern.Ranges
import PatternAutomata.Proofs.CharSets

/-!
# Laws of rows of ranges

What the operations on rows of ranges do to the characters in them. Ranges that are joined rise, so
a row of a single character is the range of it (`Rising.row_of_single`), and what a set leaves out
is a row of intervals that are apart (`negate_ofSet`).
-/
namespace PatternAutomata

/-- Between two intervals that are apart there is a code point. -/
theorem Interval.Before.not_meets {r s : Interval} (h : r.Before s) : ¬ r.Meets s := by
  intro meets
  have le := ordinal_le_succ meets.2
  unfold Interval.Before at h
  omega

theorem Interval.Before.startsFirst {r s : Interval} (h : r.Before s) :
    CharSet.startsFirst r s = true := by
  have le := r.ordinal_lo_le
  unfold Interval.Before at h
  simp only [CharSet.startsFirst, Char.le_iff_ordinal_le, Fin.le_def, decide_eq_true_eq]
  omega

namespace Pattern.Ranges

theorem ordinal_next {c : Char} (h : c.ordinal.val + 1 < Char.numCodePoints) :
    (next c).ordinal.val = c.ordinal.val + 1 := by
  have succ : c.ordinal.addNat? 1 = some ⟨c.ordinal.val + 1, h⟩ := by
    simp [Fin.addNat?, h]
  simp [next, Char.succ?_eq, succ]

theorem ordinal_previous (c : Char) : (previous c).ordinal.val = c.ordinal.val - 1 := by
  simp [previous]

variable {c : Char}

theorem mem_ofChars {cs : List Char} : c ∈ (ofChars cs).chars ↔ c ∈ cs := by
  simp [ofChars, Interval.mem_single]

theorem not_mem_empty : c ∉ (∅ : Ranges).chars := by
  simp [mem_chars, EmptyCollection.emptyCollection]

/-- A row with a single character has no other. -/
theorem mem_of_single? {r : Ranges} {d : Char} (h : r.single? = some d) : c ∈ r.chars ↔ c = d := by
  unfold single? at h
  split at h
  · next i row =>
    split at h
    · next same =>
      cases h
      have only : c ∈ r.chars ↔ c ∈ i := by simp [mem_chars, row]
      rw [only, Interval.eq_single same, Interval.mem_single]
      rfl
    · cases h
  · cases h

theorem mem_gapsFrom {l : List Interval} {r : Interval}
    (separated : (r :: l).Pairwise Interval.Before) :
    (∃ s ∈ gapsFrom r l, c ∈ s) ↔ r.hi.ordinal.val < c.ordinal.val ∧ ∀ s ∈ l, c ∉ s := by
  induction l generalizing r with
  | nil =>
    have := ordinal_lt c
    have last := ordinal_last
    simp only [gapsFrom, Char.lt_iff_ordinal_lt, Fin.lt_def, last]
    split
    · next more =>
      have after := ordinal_next (c := r.hi) (by omega)
      have order : (next r.hi).ordinal.val ≤ (Char.ofNat 0x10FFFF).ordinal.val := by omega
      simp only [List.mem_singleton, exists_eq_left, Interval.mem_between order]
      simp
      omega
    · simp
      omega
  | cons s rest ih =>
    obtain ⟨before, separated⟩ := List.pairwise_cons.mp separated
    have gap : r.hi.ordinal.val + 1 < s.lo.ordinal.val := before s List.mem_cons_self
    have small := ordinal_lt s.lo
    have le := s.ordinal_lo_le
    have next := ordinal_next (c := r.hi) (by omega)
    have previous := ordinal_previous s.lo
    simp only [gapsFrom, List.mem_cons, or_and_right, exists_or, exists_eq_left, ih separated,
      forall_eq_or_imp, Interval.mem_iff_ordinal (r := s)]
    rw [Interval.mem_between (by omega)]
    constructor
    · rintro (⟨low, high⟩ | ⟨low, others⟩)
      · exact ⟨by omega, by omega, Interval.not_mem_of_lt separated (by omega)⟩
      · exact ⟨by omega, by omega, others⟩
    · rintro ⟨low, out, others⟩
      by_cases high : c.ordinal.val < s.lo.ordinal.val
      · exact .inl ⟨by omega, by omega⟩
      · exact .inr ⟨by omega, others⟩

/-- The row that a set leaves out has all other characters. -/
theorem mem_negate_ofSet {s : CharSet} : c ∈ (ofSet s).negate.chars ↔ c ∉ s := by
  rw [mem_chars, CharSet.mem_iff]
  obtain ⟨l, separated⟩ := s
  cases l with
  | nil =>
    simp only [negate, ofSet, List.not_mem_nil, false_and, exists_false, not_false_eq_true,
      iff_true]
    exact CharSet.mem_any c
  | cons r rest =>
    have zero := ordinal_first
    have le := r.ordinal_lo_le
    have first : (∃ s ∈ (if '\x00' < r.lo then [Interval.between '\x00' (previous r.lo)] else []),
        c ∈ s) ↔ c.ordinal.val < r.lo.ordinal.val := by
      simp only [Char.lt_iff_ordinal_lt, Fin.lt_def, zero]
      split
      · have before := ordinal_previous r.lo
        simp only [List.mem_singleton, exists_eq_left]
        rw [Interval.mem_between (by omega)]
        omega
      · simp
        omega
    simp only [negate, ofSet, List.mem_append, or_and_right, exists_or, first,
      mem_gapsFrom separated, List.mem_cons, exists_eq_left, Interval.mem_iff_ordinal (r := r),
      not_or, not_exists, not_and]
    constructor
    · rintro (low | ⟨high, others⟩)
      · exact ⟨by omega, Interval.not_mem_of_lt separated low⟩
      · exact ⟨by omega, others⟩
    · rintro ⟨out, others⟩
      by_cases low : c.ordinal.val < r.lo.ordinal.val
      · exact .inl low
      · exact .inr ⟨by omega, others⟩

theorem joinFrom_of_separated {r : Interval} {rs : List Interval}
    (separated : (r :: rs).Pairwise Interval.Before) : joinFrom r rs = r :: rs := by
  induction rs generalizing r with
  | nil => rfl
  | cons s rest ih =>
    obtain ⟨before, separated⟩ := List.pairwise_cons.mp separated
    rw [joinFrom, if_neg (before s List.mem_cons_self).not_meets, ih separated]

/-- Intervals that are apart are kept as they are. -/
theorem ofIntervals_of_separated {rs : List Interval} (separated : rs.Pairwise Interval.Before) :
    ofIntervals rs = ⟨rs⟩ := by
  have sorted : rs.mergeSort CharSet.startsFirst = rs :=
    List.mergeSort_of_pairwise (separated.imp fun h => h.startsFirst)
  rw [ofIntervals, sorted]
  cases rs with
  | nil => rfl
  | cons r rest => exact congrArg Ranges.mk (joinFrom_of_separated separated)

theorem joined_ofSet (s : CharSet) : (ofSet s).joined = ofSet s :=
  ofIntervals_of_separated s.separated

theorem chars_ofSet (s : CharSet) : (ofSet s).chars = s := CharSet.ext_mem fun _ => mem_ofSet

/-- The gaps of intervals that are apart are apart, and behind the first interval. -/
theorem separated_gapsFrom {r : Interval} {rs : List Interval}
    (separated : (r :: rs).Pairwise Interval.Before) :
    (gapsFrom r rs).Pairwise Interval.Before ∧
      ∀ g ∈ gapsFrom r rs, r.hi.ordinal.val < g.lo.ordinal.val := by
  induction rs generalizing r with
  | nil =>
    unfold gapsFrom
    split
    · next more =>
      have last := ordinal_last
      simp only [Char.lt_iff_ordinal_lt, Fin.lt_def, last] at more
      have after := ordinal_next (c := r.hi) (by omega)
      have order : next r.hi ≤ Char.ofNat 0x10FFFF := by
        simp only [Char.le_iff_ordinal_le, Fin.le_def, last]
        omega
      rw [Interval.between_of_le order]
      refine ⟨List.pairwise_singleton _ _, List.forall_mem_singleton.mpr ?_⟩
      simp only
      omega
    · simp
  | cons s rest ih =>
    obtain ⟨before, others⟩ := List.pairwise_cons.mp separated
    obtain ⟨apart, behind⟩ := ih others
    have gap : r.hi.ordinal.val + 1 < s.lo.ordinal.val := before s List.mem_cons_self
    have small := ordinal_lt s.lo
    have le := s.ordinal_lo_le
    have after := ordinal_next (c := r.hi) (by omega)
    have previous := ordinal_previous s.lo
    have order : next r.hi ≤ Ranges.previous s.lo := by
      simp only [Char.le_iff_ordinal_le, Fin.le_def]
      omega
    rw [gapsFrom, Interval.between_of_le order]
    constructor
    · refine List.pairwise_cons.mpr ⟨fun g hg => ?_, apart⟩
      have := behind g hg
      simp only [Interval.Before]
      omega
    · refine List.forall_mem_cons.mpr ⟨?_, fun g hg => ?_⟩
      · simp only
        omega
      · have := behind g hg
        omega

theorem separated_negate (s : CharSet) : (ofSet s).negate.row.Pairwise Interval.Before := by
  obtain ⟨rs, separated⟩ := s
  cases rs with
  | nil => exact CharSet.any.separated
  | cons r rest =>
    obtain ⟨apart, behind⟩ := separated_gapsFrom separated
    have le := r.ordinal_lo_le
    simp only [negate, ofSet]
    split
    · next first =>
      have previous := ordinal_previous r.lo
      have order : '\x00' ≤ Ranges.previous r.lo := by
        simp only [Char.le_iff_ordinal_le, Fin.le_def, ordinal_first]
        omega
      simp only [Char.lt_iff_ordinal_lt, Fin.lt_def, ordinal_first] at first
      rw [Interval.between_of_le order]
      refine List.pairwise_cons.mpr ⟨fun g hg => ?_, apart⟩
      have := behind g hg
      simp only [Interval.Before]
      omega
    · exact apart

/-- What a set leaves out is a row of intervals that are apart. -/
theorem negate_ofSet (s : CharSet) : (ofSet s).negate = ofSet s.negate := by
  refine congrArg Ranges.mk (CharSet.intervals_ext (separated_negate s) s.negate.separated ?_)
  intro c
  exact mem_chars.symm.trans (mem_negate_ofSet.trans CharSet.mem_negate.symm)

/-- Each range ends before the next one starts. -/
def Rising (r : Ranges) : Prop := r.row.Pairwise fun i j => i.hi < j.lo

theorem rising_joinFrom {i : Interval} {l : List Interval}
    (sorted : l.Pairwise fun j k => j.lo ≤ k.lo) (first : ∀ j ∈ l, i.lo ≤ j.lo) :
    ((joinFrom i l).Pairwise fun j k => j.hi < k.lo) ∧ ∀ j ∈ joinFrom i l, i.lo ≤ j.lo := by
  induction l generalizing i with
  | nil => simp [joinFrom]
  | cons j l ih =>
    obtain ⟨next, sorted⟩ := List.pairwise_cons.mp sorted
    obtain ⟨start, first⟩ := List.forall_mem_cons.mp first
    unfold joinFrom
    split
    · have same : (i.hull j).lo = i.lo := if_pos start
      rw [← same] at first ⊢
      exact ih sorted first
    · next apart =>
      obtain ⟨rising, later⟩ := ih sorted next
      have gap : i.hi < j.lo := by
        have order : i.lo.toNat ≤ j.lo.toNat := start
        have inside : j.lo.toNat ≤ j.hi.toNat := j.lo_le_hi
        refine Nat.lt_of_not_le fun overlap => apart ⟨by omega, ?_⟩
        exact Nat.le_succ_of_le overlap
      refine ⟨List.pairwise_cons.mpr ⟨fun k hk => Nat.lt_of_lt_of_le gap (later k hk), rising⟩, ?_⟩
      exact List.forall_mem_cons.mpr
        ⟨Char.le_refl _, fun k hk => Char.le_trans start (later k hk)⟩

theorem rising_ofIntervals (rs : List Interval) : (ofIntervals rs).Rising := by
  have sorted : (rs.mergeSort CharSet.startsFirst).Pairwise fun j k => j.lo ≤ k.lo := by
    refine (List.pairwise_mergeSort ?_ ?_ rs).imp of_decide_eq_true
    · intro i j k
      simpa [CharSet.startsFirst] using Char.le_trans
    · intro i j
      simpa [CharSet.startsFirst] using Char.le_total i.lo j.lo
  unfold ofIntervals Rising
  split
  · exact .nil
  · next i rest order =>
    rw [order] at sorted
    obtain ⟨first, sorted⟩ := List.pairwise_cons.mp sorted
    exact (rising_joinFrom sorted first).1

theorem rising_ofSet (s : CharSet) : (ofSet s).Rising := by
  refine s.separated.imp ?_
  intro i j before
  rw [Char.lt_iff_ordinal_lt, Fin.lt_def]
  unfold Interval.Before at before
  omega

/-- The row of a single character is the range of it. -/
theorem Rising.row_of_single {r : Ranges} (rising : r.Rising) (only : r.chars = .single c) :
    r.row = [Interval.single c] := by
  have member (i : Interval) (hi : i ∈ r.row) : i = Interval.single c := by
    have inside {d : Char} (hd : d ∈ i) : d = c := by
      have mem : d ∈ r.chars := mem_chars.mpr ⟨i, hi, hd⟩
      rwa [only, CharSet.mem_single] at mem
    exact Interval.eq_of_ends (inside ⟨Char.le_refl _, i.lo_le_hi⟩)
      (inside ⟨i.lo_le_hi, Char.le_refl _⟩)
  have some : c ∈ r.chars := by
    rw [only]
    exact CharSet.mem_single.mpr rfl
  obtain ⟨i, hi, -⟩ := mem_chars.mp some
  unfold Rising at rising
  cases row : r.row with
  | nil => simp [row] at hi
  | cons j rest =>
    rw [row] at member rising
    obtain ⟨rfl, others⟩ := List.forall_mem_cons.mp member
    cases rest with
    | nil => rfl
    | cons k rest =>
      -- Two ranges of the same character do not rise.
      obtain ⟨rfl, -⟩ := List.forall_mem_cons.mp others
      exact absurd ((List.pairwise_cons.mp rising).1 _ List.mem_cons_self) (Char.lt_irrefl c)

end Pattern.Ranges

end PatternAutomata
