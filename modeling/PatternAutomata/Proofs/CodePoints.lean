import PatternAutomata.Proofs.Atoms
import PatternAutomata.Proofs.SetAlgebra
import Mathlib.Order.Bounds.Basic

/-!
# Atoms cut at code points

`splitAtoms` cuts sets at code points: at the start of every interval and behind its end. Such a cut
may fall on a surrogate or behind the last character, so the range between two cuts is cut back to
characters (`scalarRange?`). Numbered without the surrogates the cuts are those of `atoms`, and both
give the same (`splitAtoms_eq`): the exact common refinement of the sets (`atoms_spec`).
-/
namespace PatternAutomata

/-- The character with a code point, if there is one. -/
def char? (n : Nat) : Option Char := if n.isValidChar then some (Char.ofNat n) else none

/-- The first code point from the given one on that is no surrogate. -/
def raise (n : Nat) : Nat := if 0xD800 ≤ n ∧ n ≤ 0xDFFF then 0xE000 else n

/-- The last code point up to the given one that is no surrogate. -/
def lower (n : Nat) : Nat := if 0xD800 ≤ n ∧ n ≤ 0xDFFF then 0xD7FF else n

/-- The first and the last character of a range of code points, surrogates at its ends cut off. -/
def scalarRange? (first last : Nat) : Option (Char × Char) :=
  if raise first > lower last then none else do return (← char? (raise first), ← char? (lower last))

/-- The range of characters between two neighbouring bounds. -/
def between? (window : Nat × Nat) : Option (Char × Char) := scalarRange? window.1 (window.2 - 1)

/-- The code points at which membership in one of the sets can change, in rising order. -/
def bounds (sets : List (CharSet × Nat)) : List Nat :=
  rising (sets.flatMap fun s => s.1.intervals.flatMap fun r => [r.lo.toNat, r.hi.toNat + 1])

/-- Adds a range to those with the same targets, which come in the order of their first ranges. -/
def mergeInto (targets : List Nat) (r : Char × Char) :
    List (List Nat × List (Char × Char)) → List (List Nat × List (Char × Char))
  | [] => [(targets, [r])]
  | (known, rs) :: rest =>
    if known = targets then (known, rs ++ [r]) :: rest else (known, rs) :: mergeInto targets r rest

/-- Takes the range between two neighbouring bounds in, unless it has no characters or none of the
sets holds them. -/
def mergeWindow (sets : List (CharSet × Nat)) (merged : List (List Nat × List (Char × Char)))
    (window : Nat × Nat) : List (List Nat × List (Char × Char)) :=
  match between? window with
  | none => merged
  | some r =>
    let targets := rising ((sets.filter fun s => s.1.contains r.1).map Prod.snd)
    if targets.isEmpty then merged else mergeInto targets r merged

def splitAtoms (sets : List (CharSet × Nat)) : List (CharSet × List Nat) :=
  (((bounds sets).zip (bounds sets).tail).foldl (mergeWindow sets) []).map fun m =>
    (CharSet.ofRanges m.2, m.1)

/-- The number of characters below a code point. -/
def place (n : Nat) : Nat := if n < 0xD800 then n else if n < 0xE000 then 0xD800 else n - 0x800

/-- Where a range of characters starts, or the code point behind its end. -/
def IsBound (n : Nat) : Prop := ∃ c : Char, n = c.toNat ∨ n = c.toNat + 1

theorem char?_eq_some_iff {n : Nat} {c : Char} : char? n = some c ↔ c.toNat = n := by
  unfold char?
  constructor
  · intro h
    split at h
    · next valid =>
      cases h
      rw [Char.ofNat, dif_pos valid]
      rfl
    · cases h
  · rintro rfl
    have valid : c.toNat.isValidChar := c.valid
    rw [if_pos valid, Char.ofNat_toNat]

theorem exists_char? {n : Nat} (h : n.isValidChar) : ∃ c, char? n = some c :=
  ⟨_, if_pos h⟩

theorem isValid (c : Char) : c.toNat < 0xD800 ∨ 0xDFFF < c.toNat ∧ c.toNat < 0x110000 := by
  have valid := c.valid
  simp only [UInt32.isValidChar, Nat.isValidChar] at valid
  exact valid

theorem ordinal_eq_place (c : Char) : c.ordinal.val = place c.toNat := by
  have valid := isValid c
  have same : c.toNat = c.val.toNat := rfl
  simp only [Char.coe_ordinal, Char.numSurrogates, UInt32.lt_iff_toNat_lt, UInt32.reduceToNat,
    place]
  grind

theorem place_succ (c : Char) : place (c.toNat + 1) = c.ordinal.val + 1 := by
  have valid := isValid c
  rw [ordinal_eq_place]
  simp only [place]
  grind

theorem place_mono {a b : Nat} (h : a ≤ b) : place a ≤ place b := by
  simp only [place]
  grind

theorem IsBound.valid {n : Nat} (h : IsBound n) : n ≤ 0xD800 ∨ 0xE000 ≤ n ∧ n ≤ 0x110000 := by
  obtain ⟨c, rfl | rfl⟩ := h
  · have valid := isValid c
    omega
  · have valid := isValid c
    omega

section
variable {a b : Nat} (ha : IsBound a) (hb : IsBound b) (lt : a < b)

include ha hb lt

/-- Between two bounds with characters between them. -/
theorem exists_scalarRange? (some : place a < place b) :
    ∃ r, scalarRange? a (b - 1) = .some r ∧ r.1.ordinal.val = place a ∧
      r.2.ordinal.val + 1 = place b := by
  have va := ha.valid
  have vb := hb.valid
  simp only [place] at some
  have first : (raise a).isValidChar ∧ place (raise a) = place a := by
    simp only [raise, place, Nat.isValidChar]
    grind
  have last : (lower (b - 1)).isValidChar ∧ place (lower (b - 1) + 1) = place b := by
    simp only [lower, place, Nat.isValidChar]
    grind
  have order : ¬ raise a > lower (b - 1) := by
    simp only [raise, lower]
    grind
  obtain ⟨lo, char⟩ := exists_char? first.1
  obtain ⟨hi, char'⟩ := exists_char? last.1
  refine ⟨(lo, hi), ?_, ?_, ?_⟩
  · rw [scalarRange?, if_neg order, char, char']
    rfl
  · rw [ordinal_eq_place, char?_eq_some_iff.mp char, first.2]
  · rw [← place_succ, char?_eq_some_iff.mp char', last.2]

/-- Between two bounds lie the characters that are numbered between their places. -/
theorem map_between? :
    (between? (a, b)).map (fun r => Interval.between r.1 r.2) =
      Interval.ofOrdinals? (place a) (place b) := by
  by_cases some : place a < place b
  · obtain ⟨r, range, first, last⟩ := exists_scalarRange? ha hb lt some
    have order : r.1 ≤ r.2 := by
      rw [Char.le_iff_ordinal_le, Fin.le_def]
      omega
    have bound : place b ≤ Char.numCodePoints := by
      have := ordinal_lt r.2
      omega
    obtain ⟨s, hs⟩ := exists_ofOrdinals? some bound
    obtain ⟨lo, hi⟩ := mem_ofOrdinals? hs
    rw [between?, range, hs, Option.map_some, Interval.between, dif_pos order]
    refine congrArg _ (Interval.eq_of_ends ?_ ?_)
    · exact Char.ordinal_injective (Fin.ext (first.trans lo.symm))
    · exact Char.ordinal_injective (Fin.ext (by simp only; omega))
  · have va := ha.valid
    have vb := hb.valid
    have empty : raise a > lower (b - 1) := by
      simp only [place, raise, lower] at some ⊢
      grind
    rw [between?, scalarRange?, if_pos empty, Interval.ofOrdinals?, dif_neg (fun h => some h.1)]
    rfl

end

example : between? (0xD000, 0xE000) = some ('\uD000', '\uD7FF') := by decide

example : between? (0xD800, 0xE000) = none := by decide

theorem le_of_scalarRange? {a b : Nat} {r : Char × Char} (h : scalarRange? a b = some r) :
    r.1 ≤ r.2 := by
  unfold scalarRange? at h
  split at h
  · cases h
  · next order =>
    obtain ⟨lo, first, h⟩ := Option.bind_eq_some_iff.mp h
    obtain ⟨hi, last, h⟩ := Option.bind_eq_some_iff.mp h
    cases h
    rw [← char?_eq_some_iff.mp first, ← char?_eq_some_iff.mp last] at order
    exact Nat.le_of_not_lt order

/-! ### Cuts -/

theorem pieces_cons (n : Nat) (ns : List Nat) :
    pieces (n :: ns) = (ns.head?.bind (Interval.ofOrdinals? n)).toList ++ pieces ns := by
  cases ns with
  | nil => simp [pieces]
  | cons m rest => simp [pieces]

/-- The least member of a list in order comes first. -/
theorem head?_eq_of_sorted {ns ms : List Nat} (hn : ns.Pairwise (· ≤ ·)) (hm : ms.Pairwise (· ≤ ·))
    (same : ∀ k, k ∈ ns ↔ k ∈ ms) : ns.head? = ms.head? := by
  have least {k n : Nat} {ks : List Nat} (hk : (k :: ks).Pairwise (· ≤ ·)) (hn : n ∈ k :: ks) :
      k ≤ n := by
    rcases List.mem_cons.mp hn with rfl | later
    · exact Nat.le_refl _
    · exact List.rel_of_pairwise_cons hk later
  cases ns with
  | nil => rw [List.eq_nil_iff_forall_not_mem.mpr fun k hk => List.not_mem_nil ((same k).mpr hk)]
  | cons n ns =>
    cases ms with
    | nil => exact absurd ((same n).mp (List.mem_cons_self ..)) List.not_mem_nil
    | cons m ms =>
      refine congrArg some (Nat.le_antisymm ?_ ?_)
      · exact least hn ((same m).mpr (List.mem_cons_self ..))
      · exact least hm ((same n).mp (List.mem_cons_self ..))

/-- Cuts that are listed several times make no pieces. -/
theorem pieces_congr {ns ms : List Nat} (hn : ns.Pairwise (· ≤ ·)) (hm : ms.Pairwise (· < ·))
    (same : ∀ k, k ∈ ns ↔ k ∈ ms) : pieces ns = pieces ms := by
  induction ns generalizing ms with
  | nil => rw [List.eq_nil_iff_forall_not_mem.mpr fun k hk => List.not_mem_nil ((same k).mpr hk)]
  | cons n ns ih =>
    have first := head?_eq_of_sorted hn (hm.imp Nat.le_of_lt) same
    obtain ⟨ms, rfl⟩ : ∃ rest, ms = n :: rest := List.head?_eq_some_iff.mp first.symm
    obtain ⟨le, hn'⟩ := List.pairwise_cons.mp hn
    obtain ⟨lt, hm'⟩ := List.pairwise_cons.mp hm
    by_cases again : n ∈ ns
    · have front : ns.head? = some n := by
        cases ns with
        | nil => cases again
        | cons m ns =>
          refine congrArg some (Nat.le_antisymm ?_ (le m (List.mem_cons_self ..)))
          rcases List.mem_cons.mp again with rfl | later
          · exact Nat.le_refl _
          · exact List.rel_of_pairwise_cons hn' later
      have idle : Interval.ofOrdinals? n n = none := dif_neg fun h => Nat.lt_irrefl n h.1
      have same' (k : Nat) : k ∈ ns ↔ k ∈ n :: ms := by
        rw [← same, List.mem_cons]
        exact ⟨.inr, fun h => h.elim (fun e => e ▸ again) id⟩
      rw [pieces_cons, front, Option.bind_some, idle, ih hn' hm same']
      rfl
    · have same' (k : Nat) : k ∈ ns ↔ k ∈ ms := by
        by_cases e : k = n
        · subst e
          exact iff_of_false again fun old => Nat.lt_irrefl k (lt k old)
        · simpa [e] using same k
      have front := head?_eq_of_sorted hn' (hm'.imp Nat.le_of_lt) same'
      rw [pieces_cons, pieces_cons, front, ih hn' hm' same']

/-- The ranges between neighbouring bounds are the pieces between their places. -/
theorem windows_eq {ns : List Nat} (rise : ns.Pairwise (· < ·)) (hns : ∀ n ∈ ns, IsBound n) :
    ((ns.zip ns.tail).filterMap fun w => (between? w).map fun r => Interval.between r.1 r.2) =
      pieces (ns.map place) := by
  induction ns with
  | nil => rfl
  | cons n ns ih =>
    obtain ⟨first, rise'⟩ := List.pairwise_cons.mp rise
    obtain ⟨bound, bounds⟩ := List.forall_mem_cons.mp hns
    have rest := ih rise' bounds
    rw [List.map_cons, pieces_cons, ← rest]
    cases ns with
    | nil => rfl
    | cons m ns =>
      have window := map_between? bound (bounds m (by simp)) (first m (by simp))
      simp only [List.tail_cons, List.zip_cons_cons, List.filterMap_cons, window, List.map_cons,
        List.head?_cons, Option.bind_some]
      cases Interval.ofOrdinals? (place n) (place m) <;> rfl

/-! ### Merging -/

section
variable {targets : List Nat} {r : Char × Char}

theorem mergeInto_map {keys : List (List Nat)} (once : keys.Nodup)
    (ranges : List Nat → List (Char × Char)) :
    mergeInto targets r (keys.map fun k => (k, ranges k)) =
      if targets ∈ keys then
        keys.map fun k => (k, if k = targets then ranges k ++ [r] else ranges k)
      else keys.map (fun k => (k, ranges k)) ++ [(targets, [r])] := by
  induction keys with
  | nil => simp [mergeInto]
  | cons k keys ih =>
    obtain ⟨new, once'⟩ := List.nodup_cons.mp once
    rw [List.map_cons, mergeInto]
    split
    · next same =>
      subst same
      have others : ∀ l ∈ keys,
          (l, ranges l) = (l, if l = k then ranges l ++ [r] else ranges l) := by
        intro l hl
        have ne : l ≠ k := fun e => new (e ▸ hl)
        rw [if_neg ne]
      rw [if_pos (List.mem_cons_self ..), List.map_cons, if_pos rfl, List.map_congr_left others]
    · next other =>
      have member : targets ∈ k :: keys ↔ targets ∈ keys := by simp [Ne.symm other]
      rw [ih once']
      simp only [member]
      split
      · rw [List.map_cons, if_neg other]
      · rw [List.cons_append]

/-- The merged ranges are gathered by their targets. -/
theorem foldl_mergeInto (ps : List (List Nat × (Char × Char))) :
    ps.foldl (fun merged p => mergeInto p.1 p.2 merged) [] =
      (distinct (ps.map Prod.fst)).map fun k => (k, (ps.filter (·.1 = k)).map Prod.snd) := by
  induction ps using List.reverseRecOn with
  | nil => rfl
  | append_singleton ps p ih =>
    rw [List.foldl_append, List.foldl_cons, List.foldl_nil, ih, mergeInto_map (nodup_distinct _),
      List.map_append, List.map_singleton, distinct_append]
    simp only [mem_distinct]
    split
    · next old =>
      refine List.map_congr_left fun k _ => congrArg _ ?_
      rw [List.filter_append, List.map_append]
      by_cases same : p.1 = k
      · simp [same]
      · simp [same, Ne.symm same]
    · next new =>
      rw [List.map_append]
      congr 1
      · refine List.map_congr_left fun k hk => congrArg _ ?_
        have other : p.1 ≠ k := fun e => new (e ▸ mem_distinct.mp hk)
        rw [List.filter_append, List.map_append]
        simp [other]
      · have none : ps.filter (·.1 = p.1) = [] := List.filter_eq_nil_iff.mpr fun q hq same =>
          new (List.mem_map.mpr ⟨q, hq, by simpa using same⟩)
        rw [List.map_singleton, List.filter_append, none]
        simp

end

/-- The ranges of characters between neighbouring bounds. -/
def windowsOf (sets : List (CharSet × Nat)) : List (Char × Char) :=
  ((bounds sets).zip (bounds sets).tail).filterMap between?

variable {sets : List (CharSet × Nat)}

theorem foldl_mergeWindow (windows : List (Nat × Nat))
    (merged : List (List Nat × List (Char × Char))) :
    windows.foldl (mergeWindow sets) merged =
      (((windows.filterMap between?).map fun r => (targetsOf sets r.1, r)).filter
        (·.1 ≠ [])).foldl (fun merged p => mergeInto p.1 p.2 merged) merged := by
  have targets (c : Char) :
      rising ((sets.filter fun s => s.1.contains c).map Prod.snd) = targetsOf sets c := by
    unfold targetsOf
    congr 3
    funext s
    exact Bool.eq_iff_iff.mpr (CharSet.contains_iff.trans decide_eq_true_iff.symm)
  induction windows generalizing merged with
  | nil => rfl
  | cons w windows ih =>
    rw [List.foldl_cons, ih, mergeWindow]
    cases range : between? w with
    | none => rw [List.filterMap_cons_none range]
    | some r =>
      rw [List.filterMap_cons_some range, List.map_cons]
      simp only [targets]
      by_cases none : targetsOf sets r.1 = []
      · simp [none]
      · simp [none]

theorem mem_bounds {n : Nat} : n ∈ bounds sets ↔
    ∃ s ∈ sets, ∃ r ∈ s.1.intervals, n = r.lo.toNat ∨ n = r.hi.toNat + 1 := by
  simp [bounds]

theorem mem_map_ledOf {r : Interval} :
    r ∈ (ledOf sets).map Prod.fst ↔ ∃ s ∈ sets, r ∈ s.1.intervals := by
  simp only [ledOf, gathered_eq, List.mem_map, List.mem_flatMap, mem_distinct]
  constructor
  · rintro ⟨_, ⟨_, ⟨_, ⟨s, hs, rfl⟩, rfl⟩, q, hq, rfl⟩, rfl⟩
    exact ⟨s, hs, hq⟩
  · rintro ⟨s, hs, hr⟩
    exact ⟨(r, _), ⟨(s.1, _), ⟨s.1, ⟨s, hs, rfl⟩, rfl⟩, r, hr, rfl⟩, rfl⟩

/-- The places of the bounds are the cuts. -/
theorem mem_cuts {k : Nat} :
    k ∈ cuts ((ledOf sets).map Prod.fst) ↔ k ∈ (bounds sets).map place := by
  have ends (r : Interval) (k : Nat) : k ∈ [r.lo.ordinal.val, r.hi.ordinal.val + 1] ↔
      ∃ n, (n = r.lo.toNat ∨ n = r.hi.toNat + 1) ∧ place n = k := by
    simp [ordinal_eq_place r.lo, ← place_succ r.hi, eq_comm]
  rw [cuts, mem_rising, List.mem_flatMap, List.mem_map]
  constructor
  · rintro ⟨r, hr, hk⟩
    obtain ⟨s, hs, hr⟩ := mem_map_ledOf.mp hr
    obtain ⟨n, hn, same⟩ := (ends r k).mp hk
    exact ⟨n, mem_bounds.mpr ⟨s, hs, r, hr, hn⟩, same⟩
  · rintro ⟨n, hn, same⟩
    obtain ⟨s, hs, r, hr, hn⟩ := mem_bounds.mp hn
    exact ⟨r, mem_map_ledOf.mpr ⟨s, hs, hr⟩, (ends r k).mpr ⟨n, hn, same⟩⟩

theorem pairwise_bounds (sets : List (CharSet × Nat)) : (bounds sets).Pairwise (· < ·) :=
  pairwise_rising _

theorem map_windowsOf :
    (windowsOf sets).map (fun r => Interval.between r.1 r.2) = piecesOf sets := by
  have bound : ∀ n ∈ bounds sets, IsBound n := by
    intro n hn
    obtain ⟨s, -, r, -, first | behind⟩ := mem_bounds.mp hn
    · exact ⟨r.lo, .inl first⟩
    · exact ⟨r.hi, .inr behind⟩
  have sorted : ((bounds sets).map place).Pairwise (· ≤ ·) :=
    List.pairwise_map.mpr ((pairwise_bounds sets).imp fun h => place_mono (Nat.le_of_lt h))
  rw [windowsOf, List.map_filterMap, windows_eq (pairwise_bounds sets) bound]
  exact pieces_congr sorted (pairwise_rising _) fun k => mem_cuts.symm

/-- The windows that have targets are the parts. -/
theorem partsOf_eq : partsOf sets =
    (((windowsOf sets).map fun r => (targetsOf sets r.1, r)).filter (·.1 ≠ [])).map fun p =>
      (p.1, Interval.between p.2.1 p.2.2) := by
  have start : ∀ r ∈ windowsOf sets, (Interval.between r.1 r.2).lo = r.1 := by
    intro r hr
    obtain ⟨w, -, range⟩ := List.mem_filterMap.mp hr
    rw [Interval.between, dif_pos (le_of_scalarRange? range)]
  have parts : (piecesOf sets).map (fun r => (targetsOf sets r.lo, r)) =
      ((windowsOf sets).map fun r => (targetsOf sets r.1, r)).map fun p =>
        (p.1, Interval.between p.2.1 p.2.2) := by
    rw [← map_windowsOf, List.map_map, List.map_map]
    exact List.map_congr_left fun r hr => by simp only [Function.comp_apply, start r hr]
  rw [partsOf, parts, List.filter_map]
  rfl

/-- Cutting at code points gives the same atoms. -/
theorem splitAtoms_eq (sets : List (CharSet × Nat)) : splitAtoms sets = atoms sets := by
  let parts := ((windowsOf sets).map fun r => (targetsOf sets r.1, r)).filter (·.1 ≠ [])
  have merged : splitAtoms sets = (distinct (parts.map Prod.fst)).map fun k =>
      (CharSet.ofRanges ((parts.filter (·.1 = k)).map Prod.snd), k) := by
    rw [splitAtoms, foldl_mergeWindow, foldl_mergeInto, List.map_map]
    rfl
  have keys : (partsOf sets).map Prod.fst = parts.map Prod.fst := by
    rw [partsOf_eq, List.map_map]
    rfl
  rw [merged, atoms_eq, keys]
  refine List.map_congr_left fun k _ => Prod.ext (CharSet.ext_mem fun c => ?_) rfl
  have ranges : ((partsOf sets).filter (·.1 = k)).map Prod.snd =
      ((parts.filter (·.1 = k)).map Prod.snd).map fun r => Interval.between r.1 r.2 := by
    rw [partsOf_eq, List.filter_map, List.map_map, List.map_map]
    rfl
  rw [ranges, CharSet.mem_ofRanges, CharSet.mem_ofIntervals]
  simp only [List.mem_map, exists_exists_and_eq_and]

/-! ### The refinement -/

/-- A set with characters has a least one, the start of its first interval. -/
theorem CharSet.exists_isLeast {s : CharSet} {c : Char} (hc : c ∈ s) : ∃ d, IsLeast s.chars d := by
  obtain ⟨intervals, separated⟩ := s
  cases intervals with
  | nil => exact absurd hc not_mem_empty
  | cons r rest =>
    refine ⟨r.lo, ⟨r, List.mem_cons_self .., Char.le_refl _, r.lo_le_hi⟩, fun d hd => ?_⟩
    rw [Char.le_iff_ordinal_le, Fin.le_def]
    exact (lo_le_of_mem separated hd).1

/-- The atoms of some sets with targets, which are the same if the sets are cut at code points.
Every atom has characters and is a canonical set; it has targets, listed in rising order. Two atoms
share no character and differ in their targets, and their least characters are in order. The targets
of the atom that holds a character are those of the sets that hold it, and a character is in an atom
exactly if it is in one of the sets. -/
theorem atoms_spec (sets : List (CharSet × Nat)) :
    splitAtoms sets = atoms sets ∧
      (∀ a ∈ atoms sets, a.1 ≠ ∅ ∧ (∀ r ∈ a.1.intervals, r.lo ≤ r.hi) ∧
        a.1.intervals.Pairwise Interval.Apart ∧ a.2 ≠ [] ∧ a.2.Pairwise (· < ·)) ∧
      ((atoms sets).Pairwise fun a b => a.2 ≠ b.2 ∧ (∀ c, ¬ (c ∈ a.1 ∧ c ∈ b.1)) ∧
        ∃ c d, IsLeast a.1.chars c ∧ IsLeast b.1.chars d ∧ c < d) ∧
      ∀ c, (∀ a ∈ atoms sets, c ∈ a.1 → ∀ n, n ∈ a.2 ↔ ∃ s, (s, n) ∈ sets ∧ c ∈ s) ∧
        ((∃ a ∈ atoms sets, c ∈ a.1) ↔ ∃ s n, (s, n) ∈ sets ∧ c ∈ s) := by
  refine ⟨splitAtoms_eq sets, fun a ha => ?_, ?_, fun c => ⟨fun a ha hc n => ?_, ?_⟩⟩
  · obtain ⟨filled, ⟨c, hc⟩, holds⟩ := mem_of_mem_atoms ha
    have separate := a.1.separated.imp Interval.Before.apart
    refine ⟨fun none => ?_, fun r _ => r.lo_le_hi, separate, filled, ?_⟩
    · exact CharSet.not_mem_empty (none ▸ hc)
    · exact (holds c).mp hc ▸ pairwise_rising _
  · refine ((apart_atoms sets).and (pairwise_atoms sets)).imp_of_mem ?_
    rintro a b ha hb ⟨⟨ne, apart⟩, first, hfirst, before⟩
    obtain ⟨-, ⟨c, hc⟩, -⟩ := mem_of_mem_atoms hb
    obtain ⟨least, own, low⟩ := CharSet.exists_isLeast hfirst
    obtain ⟨least', own', low'⟩ := CharSet.exists_isLeast hc
    refine ⟨ne, apart, least, least', ⟨own, low⟩, ⟨own', low'⟩, ?_⟩
    exact Nat.lt_of_le_of_lt (low hfirst) (before least' own')
  · rw [← ((mem_of_mem_atoms ha).2.2 c).mp hc]
    exact mem_targetsOf
  · constructor
    · rintro ⟨a, ha, hc⟩
      obtain ⟨filled, -, holds⟩ := mem_of_mem_atoms ha
      obtain ⟨n, hn⟩ := List.exists_mem_of_ne_nil _ filled
      rw [← (holds c).mp hc] at hn
      obtain ⟨s, hs, hcs⟩ := mem_targetsOf.mp hn
      exact ⟨s, n, hs, hcs⟩
    · rintro ⟨s, n, hs, hc⟩
      have some : targetsOf sets c ≠ [] := List.ne_nil_of_mem (mem_targetsOf.mpr ⟨s, hs, hc⟩)
      obtain ⟨t, ht⟩ := exists_atom some
      exact ⟨_, ht, ((mem_of_mem_atoms ht).2.2 c).mpr rfl⟩

end PatternAutomata
