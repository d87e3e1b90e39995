import PatternAutomata.Automaton.Atoms
import PatternAutomata.Proofs.CharSets
import PatternAutomata.Proofs.Numbering
import Mathlib.Data.List.Sort
import Mathlib.Data.List.TakeDrop
import Mathlib.Tactic.Tauto

/-!
# What atoms are

A character belongs to an atom exactly if the targets of the atom are the targets of the character
(`mem_of_mem_atoms`), and every character with a target belongs to one (`exists_atom`). Atoms stand
in the order of their least characters (`pairwise_atoms`).
-/
namespace PatternAutomata

/-- A rising list is known by its members. -/
theorem eq_of_rising {as bs : List Nat} (ha : as.Pairwise (· < ·)) (hb : bs.Pairwise (· < ·))
    (h : ∀ n, n ∈ as ↔ n ∈ bs) : as = bs := ha.eq_of_mem_iff hb h

theorem rising_congr {as bs : List Nat} (h : ∀ n, n ∈ as ↔ n ∈ bs) : rising as = rising bs :=
  eq_of_rising (pairwise_rising as) (pairwise_rising bs) fun n => by
    rw [mem_rising, mem_rising, h]

/-- Keys occur first in the order in which values that belong to them occur first. -/
theorem pairwise_distinct {κ β : Type} [DecidableEq κ] [Hashable κ] {R : κ × β → κ × β → Prop}
    {ps : List (κ × β)} (h : ps.Pairwise R) :
    (distinct (ps.map Prod.fst)).Pairwise fun k l =>
      ∃ p ∈ ps, p.1 = k ∧ ∀ q ∈ ps, q.1 = l → R p q := by
  induction ps using List.reverseRecOn with
  | nil => simp [distinct, Numbering.ofList, Numbering.empty]
  | append_singleton ps q ih =>
    obtain ⟨old, _, last⟩ := List.pairwise_append.mp h
    have grown {k l : κ} (later : ∃ p ∈ ps, p.1 = k ∧ ∀ q ∈ ps, q.1 = l → R p q) :
        ∃ p ∈ ps ++ [q], p.1 = k ∧ ∀ r ∈ ps ++ [q], r.1 = l → R p r := by
      obtain ⟨p, hp, hk, all⟩ := later
      refine ⟨p, by simp [hp], hk, fun r hr hl => ?_⟩
      rcases List.mem_append.mp hr with hr | hr
      · exact all r hr hl
      · exact last p hp r hr
    rw [List.map_append, List.map_singleton, distinct_append]
    split
    · exact (ih old).imp grown
    · next new =>
      refine List.pairwise_append.mpr ⟨(ih old).imp grown, List.pairwise_singleton .., ?_⟩
      intro k hk l hl
      obtain ⟨p, hp, e⟩ := List.mem_map.mp (mem_distinct.mp hk)
      refine ⟨p, by simp [hp], e, fun r hr hrl => ?_⟩
      rcases List.mem_append.mp hr with hr | hr
      · exact absurd (List.mem_map.mpr ⟨r, hr, hrl.trans (List.mem_singleton.mp hl)⟩) new
      · exact last p hp r hr

/-- A piece lies between two cuts, and no cut falls inside it. -/
theorem uncut_of_mem_pieces {ns : List Nat} (rise : ns.Pairwise (· < ·)) {r : Interval}
    (h : r ∈ pieces ns) : r.lo.ordinal.val ∈ ns ∧
      ∀ n ∈ ns, n ≤ r.lo.ordinal.val ∨ r.hi.ordinal.val + 1 ≤ n := by
  fun_induction pieces ns with
  | case1 a b rest ih =>
    obtain ⟨first, rise'⟩ := List.pairwise_cons.mp rise
    rcases List.mem_append.mp h with h | h
    · obtain ⟨lo, hi⟩ := mem_ofOrdinals? (Option.mem_toList.mp h)
      rw [lo, hi]
      refine ⟨by simp, fun n hn => ?_⟩
      rcases List.mem_cons.mp hn with rfl | hn
      · exact .inl (Nat.le_refl _)
      · rcases List.mem_cons.mp hn with rfl | hn
        · exact .inr (Nat.le_refl _)
        · exact .inr (Nat.le_of_lt ((List.pairwise_cons.mp rise').1 n hn))
    · obtain ⟨start, uncut⟩ := ih rise' h
      refine ⟨List.mem_cons_of_mem _ start, fun n hn => ?_⟩
      rcases List.mem_cons.mp hn with rfl | hn
      · exact .inl (Nat.le_of_lt (first _ start))
      · exact uncut n hn
  | case2 => cases h

theorem pairwise_pieces {ns : List Nat} (rise : ns.Pairwise (· < ·)) :
    (pieces ns).Pairwise fun r s => r.hi.ordinal.val < s.lo.ordinal.val := by
  fun_induction pieces ns with
  | case1 a b rest ih =>
    obtain ⟨first, rise'⟩ := List.pairwise_cons.mp rise
    refine List.pairwise_append.mpr ⟨?_, ih rise', fun r hr s hs => ?_⟩
    · cases Interval.ofOrdinals? a b <;> simp
    · obtain ⟨_, hi⟩ := mem_ofOrdinals? (Option.mem_toList.mp hr)
      rcases List.mem_cons.mp (uncut_of_mem_pieces rise' hs).1 with lo | lo
      · omega
      · have := (List.pairwise_cons.mp rise').1 _ lo
        omega
  | case2 => exact .nil

/-- The pieces fill all that lies between two cuts. -/
theorem exists_piece {ns : List Nat} (rise : ns.Pairwise (· < ·))
    (bounded : ∀ n ∈ ns, n ≤ Char.numCodePoints) {c : Char} {a b : Nat} (ha : a ∈ ns) (hb : b ∈ ns)
    (hac : a ≤ c.ordinal.val) (hcb : c.ordinal.val < b) : ∃ r ∈ pieces ns, c ∈ r := by
  induction ns generalizing a with
  | nil => cases ha
  | cons x rest ih =>
    obtain ⟨first, rise'⟩ := List.pairwise_cons.mp rise
    have hxb : b ∈ rest := by
      rcases List.mem_cons.mp hb with rfl | hb
      · rcases List.mem_cons.mp ha with rfl | ha
        · omega
        · have := first a ha
          omega
      · exact hb
    cases rest with
    | nil => cases hxb
    | cons y rest =>
      by_cases hcy : y ≤ c.ordinal.val
      · obtain ⟨r, hr, hc⟩ :=
          ih rise' (fun n hn => bounded n (by simp [hn])) (a := y) (by simp) hxb hcy
        exact ⟨r, by simp [pieces, hr], hc⟩
      · obtain ⟨r, hr⟩ := exists_ofOrdinals? (first y (by simp)) (bounded y (by simp))
        obtain ⟨lo, hi⟩ := mem_ofOrdinals? hr
        have hxc : x ≤ c.ordinal.val := by
          rcases List.mem_cons.mp ha with rfl | ha
          · exact hac
          · exact Nat.le_trans (Nat.le_of_lt (first a ha)) hac
        refine ⟨r, by simp [pieces, hr], ?_⟩
        rw [Interval.mem_iff_ordinal]
        omega

/-- The targets of the intervals that hold a character. -/
def targetsIn (led : List Led) (c : Char) : List Nat :=
  rising ((led.filter (c ∈ ·.1)).flatMap Prod.snd)

theorem mem_targetsIn {led : List Led} {c : Char} {n : Nat} :
    n ∈ targetsIn led c ↔ ∃ l ∈ led, c ∈ l.1 ∧ n ∈ l.2 := by
  simp only [targetsIn, mem_rising, List.mem_flatMap, List.mem_filter, decide_eq_true_eq, and_assoc]

/-- Intervals in the order of their starts are divided by whether they begin at a character. -/
theorem span_sorted {led : List Led} (sorted : led.Pairwise fun l m => l.1.lo ≤ m.1.lo) (c : Char) :
    ∃ begun rest, led.span (fun l => l.1.lo ≤ c) = (begun, rest) ∧ led = begun ++ rest ∧
      (∀ l ∈ begun, l.1.lo ≤ c) ∧ ∀ l ∈ rest, ¬ l.1.lo ≤ c := by
  simp only [List.span_eq_takeWhile_dropWhile]
  induction led with
  | nil => exact ⟨[], [], rfl, rfl, by simp, by simp⟩
  | cons l led ih =>
    obtain ⟨first, sorted'⟩ := List.pairwise_cons.mp sorted
    by_cases h : l.1.lo ≤ c
    · obtain ⟨begun, rest, e, parts, early, late⟩ := ih sorted'
      obtain ⟨hb, hr⟩ := Prod.mk.inj e
      refine ⟨l :: begun, rest, ?_, by rw [parts, List.cons_append], ?_, late⟩
      · simp [h, hb, hr]
      · exact List.forall_mem_cons.mpr ⟨h, early⟩
    · refine ⟨[], l :: led, by simp [h], rfl, by simp, ?_⟩
      exact List.forall_mem_cons.mpr ⟨h, fun m hm k => h (Char.le_trans (first m hm) k)⟩

/-- A sweep gives each piece the targets of its first character. -/
theorem sweep_eq {active ahead : List Led} {rs : List Interval}
    (sorted : ahead.Pairwise fun l m => l.1.lo ≤ m.1.lo)
    (begun : ∀ l ∈ active, ∀ r ∈ rs, l.1.lo ≤ r.lo) (rise : rs.Pairwise fun r s => r.lo ≤ s.lo) :
    sweep active ahead rs = rs.map fun r => (r, targetsIn (active ++ ahead) r.lo) := by
  induction rs generalizing active ahead with
  | nil => rfl
  | cons r rest ih =>
    obtain ⟨first, rise'⟩ := List.pairwise_cons.mp rise
    obtain ⟨now, later, split, parts, early, late⟩ := span_sorted sorted r.lo
    have sorted' : later.Pairwise fun l m => l.1.lo ≤ m.1.lo :=
      (List.pairwise_append.mp (parts ▸ sorted)).2.1
    have started (l : Led) (hl : l ∈ now ++ active) : l.1.lo ≤ r.lo := by
      rcases List.mem_append.mp hl with hl | hl
      · exact early l hl
      · exact begun l hl r (by simp)
    -- what the sweep leaves behind ends before the piece, so that no later piece is in it
    have kept {c : Char} (hc : r.lo ≤ c) (l : Led) (hl : c ∈ l.1) :
        l ∈ ((now ++ active).filter fun l => r.lo ≤ l.1.hi) ++ later ↔ l ∈ active ++ ahead := by
      have ends : r.lo ≤ l.1.hi := Char.le_trans hc (Interval.mem_iff.mp hl).2
      simp only [parts, List.mem_append, List.mem_filter, ends, decide_true, and_true]
      tauto
    rw [sweep, split, List.map_cons]
    simp only
    congr 1
    · refine congrArg (Prod.mk r) (rising_congr fun n => ?_)
      simp only [List.mem_flatMap]
      constructor
      · rintro ⟨l, hl, hn⟩
        obtain ⟨hl, ends⟩ := List.mem_filter.mp hl
        have holds : r.lo ∈ l.1 := Interval.mem_iff.mpr ⟨started l hl, by simpa using ends⟩
        refine ⟨l, List.mem_filter.mpr ⟨(kept (Char.le_refl _) l holds).mp ?_, by simpa⟩, hn⟩
        exact List.mem_append_left _ (List.mem_filter.mpr ⟨hl, ends⟩)
      · rintro ⟨l, hl, hn⟩
        obtain ⟨hl, holds⟩ := List.mem_filter.mp hl
        have holds : r.lo ∈ l.1 := by simpa using holds
        refine ⟨l, ?_, hn⟩
        refine (List.mem_append.mp ((kept (Char.le_refl _) l holds).mpr hl)).resolve_right ?_
        exact fun hl => late l hl (Interval.mem_iff.mp holds).1
    · rw [ih sorted' (fun l hl s hs => ?_) rise']
      · refine List.map_congr_left fun s hs => congrArg (Prod.mk s) (rising_congr fun n => ?_)
        simp only [List.mem_flatMap, List.mem_filter, decide_eq_true_eq]
        constructor
        · rintro ⟨l, ⟨hl, holds⟩, hn⟩
          exact ⟨l, ⟨(kept (first s hs) l holds).mp hl, holds⟩, hn⟩
        · rintro ⟨l, ⟨hl, holds⟩, hn⟩
          exact ⟨l, ⟨(kept (first s hs) l holds).mpr hl, holds⟩, hn⟩
      · exact Char.le_trans (started l (List.mem_filter.mp hl).1) (first s hs)

/-- The targets of a character: those of the sets that hold it. -/
def targetsOf (sets : List (CharSet × Nat)) (c : Char) : List Nat :=
  rising ((sets.filter (c ∈ ·.1)).map Prod.snd)

theorem mem_targetsOf {sets : List (CharSet × Nat)} {c : Char} {n : Nat} :
    n ∈ targetsOf sets c ↔ ∃ s, (s, n) ∈ sets ∧ c ∈ s := by
  simp only [targetsOf, mem_rising, List.mem_map, List.mem_filter, decide_eq_true_eq, Prod.exists,
    exists_eq_right]

/-- The intervals of some sets, each with the targets of its set. -/
def ledOf (sets : List (CharSet × Nat)) : List Led :=
  (gathered sets).flatMap fun s => s.1.intervals.map (·, s.2)

theorem targetsIn_ledOf (sets : List (CharSet × Nat)) (c : Char) :
    targetsIn (ledOf sets) c = targetsOf sets c := by
  refine eq_of_rising (pairwise_rising _) (pairwise_rising _) fun n => ?_
  rw [mem_targetsIn, mem_targetsOf]
  simp only [ledOf, gathered_eq, List.mem_flatMap, List.mem_map, mem_distinct]
  constructor
  · rintro ⟨_, ⟨_, ⟨s, hs, rfl⟩, r, hr, rfl⟩, hc, hn⟩
    obtain ⟨⟨t, m⟩, hp, rfl⟩ := List.mem_map.mp hn
    obtain ⟨hp, same⟩ := List.mem_filter.mp hp
    simp only [decide_eq_true_eq] at same
    exact ⟨t, hp, CharSet.mem_iff.mpr ⟨r, same ▸ hr, hc⟩⟩
  · rintro ⟨s, hs, hc⟩
    obtain ⟨r, hr, hc⟩ := CharSet.mem_iff.mp hc
    refine ⟨(r, _), ⟨_, ⟨s, ⟨(s, n), hs, rfl⟩, rfl⟩, r, hr, rfl⟩, hc, ?_⟩
    exact List.mem_map.mpr ⟨(s, n), List.mem_filter.mpr ⟨hs, by simp⟩, rfl⟩

/-- The pieces into which the intervals of some sets are cut. -/
def piecesOf (sets : List (CharSet × Nat)) : List Interval :=
  pieces (cuts ((ledOf sets).map Prod.fst))

/-- All characters of a piece have the targets of its first one. -/
theorem targetsOf_piece {sets : List (CharSet × Nat)} {r : Interval} (hr : r ∈ piecesOf sets)
    {c : Char} (hc : c ∈ r) : targetsOf sets c = targetsOf sets r.lo := by
  rw [← targetsIn_ledOf, ← targetsIn_ledOf]
  refine eq_of_rising (pairwise_rising _) (pairwise_rising _) fun n => ?_
  rw [mem_targetsIn, mem_targetsIn]
  refine exists_congr fun l => and_congr_right fun hl => and_congr_left fun _ => ?_
  have cut {k : Nat} (hk : k = l.1.lo.ordinal.val ∨ k = l.1.hi.ordinal.val + 1) :
      k ≤ r.lo.ordinal.val ∨ r.hi.ordinal.val + 1 ≤ k := by
    refine (uncut_of_mem_pieces (pairwise_rising _) hr).2 k (mem_rising.mpr ?_)
    exact List.mem_flatMap.mpr ⟨l.1, List.mem_map_of_mem hl, by simpa using hk⟩
  have lo := cut (.inl rfl)
  have hi := cut (.inr rfl)
  have := r.ordinal_lo_le
  simp only [Interval.mem_iff_ordinal] at hc ⊢
  omega

theorem exists_mem_piecesOf {sets : List (CharSet × Nat)} {c : Char} (h : targetsOf sets c ≠ []) :
    ∃ r ∈ piecesOf sets, c ∈ r := by
  obtain ⟨n, hn⟩ := List.exists_mem_of_ne_nil _ h
  rw [← targetsIn_ledOf, mem_targetsIn] at hn
  obtain ⟨l, hl, hc, _⟩ := hn
  have bound {k : Nat} (hk : k ∈ [l.1.lo.ordinal.val, l.1.hi.ordinal.val + 1]) :
      k ∈ cuts ((ledOf sets).map Prod.fst) :=
    mem_rising.mpr (List.mem_flatMap.mpr ⟨l.1, List.mem_map_of_mem hl, hk⟩)
  obtain ⟨lo, hi⟩ := Interval.mem_iff_ordinal.mp hc
  refine exists_piece (pairwise_rising _) (fun k hk => ?_) (bound (by simp)) (bound (by simp)) lo
    (Nat.lt_succ_of_le hi)
  obtain ⟨r, _, hk⟩ := List.mem_flatMap.mp (mem_rising.mp hk)
  have := r.lo.ordinal.isLt
  have := r.hi.ordinal.isLt
  simp only [List.mem_cons, List.not_mem_nil, or_false] at hk
  omega

/-- The pieces that have targets, each behind its targets. -/
def partsOf (sets : List (CharSet × Nat)) : List (List Nat × Interval) :=
  ((piecesOf sets).map fun r => (targetsOf sets r.lo, r)).filter fun p => p.1 ≠ []

theorem mem_partsOf {sets : List (CharSet × Nat)} {p : List Nat × Interval} :
    p ∈ partsOf sets ↔ p.2 ∈ piecesOf sets ∧ p.1 = targetsOf sets p.2.lo ∧ p.1 ≠ [] := by
  obtain ⟨targets, r⟩ := p
  simp only [partsOf, List.mem_filter, List.mem_map, Prod.mk.injEq, decide_eq_true_eq]
  constructor
  · rintro ⟨⟨_, hr, rfl, rfl⟩, filled⟩
    exact ⟨hr, rfl, filled⟩
  · rintro ⟨hr, e, filled⟩
    exact ⟨⟨r, hr, e.symm, rfl⟩, filled⟩

/-- An atom takes the pieces that have the same targets. -/
theorem atoms_eq (sets : List (CharSet × Nat)) :
    atoms sets = (distinct ((partsOf sets).map Prod.fst)).map fun targets =>
      (CharSet.ofIntervals (((partsOf sets).filter (·.1 = targets)).map Prod.snd), targets) := by
  let ahead := (ledOf sets).mergeSort fun l m => l.1.lo ≤ m.1.lo
  have sorted : ahead.Pairwise fun l m => l.1.lo ≤ m.1.lo := by
    have trans (a b c : Led) :
        decide (a.1.lo ≤ b.1.lo) → decide (b.1.lo ≤ c.1.lo) → decide (a.1.lo ≤ c.1.lo) := by
      simpa using Char.le_trans
    have total (a b : Led) : decide (a.1.lo ≤ b.1.lo) || decide (b.1.lo ≤ a.1.lo) := by
      simpa using Char.le_total ..
    exact (List.pairwise_mergeSort trans total (ledOf sets)).imp fun k => by simpa using k
  have rise : (piecesOf sets).Pairwise fun r s => r.lo ≤ s.lo := by
    refine (pairwise_pieces (pairwise_rising _)).imp fun {r s} h => ?_
    have := r.ordinal_lo_le
    rw [Char.le_iff_ordinal_le, Fin.le_def]
    omega
  have swept : sweep [] ahead (piecesOf sets) =
      (piecesOf sets).map fun r => (r, targetsOf sets r.lo) := by
    rw [sweep_eq sorted (by simp) rise]
    refine List.map_congr_left fun r _ => ?_
    rw [← targetsIn_ledOf, List.nil_append]
    refine congrArg (Prod.mk r) (eq_of_rising (pairwise_rising _) (pairwise_rising _) fun n => ?_)
    simp only [mem_targetsIn, ahead, List.mem_mergeSort]
  have parts : ((sweep [] ahead (piecesOf sets)).filter fun l => l.2 ≠ []).map
      (fun l => (l.2, l.1)) = partsOf sets := by
    rw [swept, partsOf, List.filter_map, List.filter_map, List.map_map]
    rfl
  have unfolded : atoms sets = (gathered (((sweep [] ahead (piecesOf sets)).filter
      fun l => l.2 ≠ []).map fun l => (l.2, l.1))).map
        fun p => (CharSet.ofIntervals p.2, p.1) := rfl
  rw [unfolded, parts, gathered_eq, List.map_map]
  rfl

/-- The characters of an atom are all those that have its targets, and there are some. -/
theorem mem_of_mem_atoms {sets : List (CharSet × Nat)} {a : CharSet × List Nat}
    (h : a ∈ atoms sets) :
    a.2 ≠ [] ∧ (∃ c, c ∈ a.1) ∧ ∀ c, c ∈ a.1 ↔ targetsOf sets c = a.2 := by
  rw [atoms_eq] at h
  obtain ⟨targets, hk, rfl⟩ := List.mem_map.mp h
  obtain ⟨p, hp, rfl⟩ := List.mem_map.mp (mem_distinct.mp hk)
  obtain ⟨hr, e, filled⟩ := mem_partsOf.mp hp
  have holds (c : Char) : c ∈ CharSet.ofIntervals (((partsOf sets).filter (·.1 = p.1)).map
      Prod.snd) ↔ targetsOf sets c = p.1 := by
    simp only [CharSet.mem_ofIntervals, List.mem_map, List.mem_filter, decide_eq_true_eq]
    constructor
    · rintro ⟨_, ⟨q, ⟨hq, same⟩, rfl⟩, hc⟩
      obtain ⟨hs, e', _⟩ := mem_partsOf.mp hq
      rw [targetsOf_piece hs hc, ← e', same]
    · intro hc
      obtain ⟨s, hs, hcs⟩ := exists_mem_piecesOf (hc ▸ filled)
      have same : targetsOf sets s.lo = p.1 := (targetsOf_piece hs hcs).symm.trans hc
      exact ⟨s, ⟨(p.1, s), ⟨mem_partsOf.mpr ⟨hs, same.symm, filled⟩, rfl⟩, rfl⟩, hcs⟩
  exact ⟨filled, ⟨p.2.lo, (holds _).mpr e.symm⟩, holds⟩

/-- A character that has targets is in an atom. -/
theorem exists_atom {sets : List (CharSet × Nat)} {c : Char} (h : targetsOf sets c ≠ []) :
    ∃ s, (s, targetsOf sets c) ∈ atoms sets := by
  obtain ⟨r, hr, hc⟩ := exists_mem_piecesOf h
  have hp : (targetsOf sets c, r) ∈ partsOf sets :=
    mem_partsOf.mpr ⟨hr, targetsOf_piece hr hc, h⟩
  rw [atoms_eq]
  exact ⟨_, List.mem_map.mpr ⟨_, mem_distinct.mpr (List.mem_map_of_mem hp), rfl⟩⟩

/-- Two atoms share neither their targets nor a character. -/
theorem apart_atoms (sets : List (CharSet × Nat)) :
    (atoms sets).Pairwise fun a b => a.2 ≠ b.2 ∧ ∀ c, ¬ (c ∈ a.1 ∧ c ∈ b.1) := by
  have keys : (atoms sets).map Prod.snd = distinct ((partsOf sets).map Prod.fst) := by
    rw [atoms_eq, List.map_map]
    exact List.map_id _
  have once : ((atoms sets).map Prod.snd).Nodup := keys ▸ nodup_distinct _
  refine (List.pairwise_map.mp once).imp_of_mem fun {a b} ha hb ne => ⟨ne, ?_⟩
  rintro c ⟨first, second⟩
  have targets := ((mem_of_mem_atoms ha).2.2 c).mp first
  exact ne (targets.symm.trans (((mem_of_mem_atoms hb).2.2 c).mp second))

/-- Some character of an atom comes before all characters of the atoms behind it. -/
theorem pairwise_atoms (sets : List (CharSet × Nat)) :
    (atoms sets).Pairwise fun a b => ∃ c ∈ a.1, ∀ d ∈ b.1, c < d := by
  have rise : (partsOf sets).Pairwise fun p q => p.2.hi.ordinal.val < q.2.lo.ordinal.val := by
    refine (List.pairwise_map.mpr ?_).filter _
    exact pairwise_pieces (pairwise_rising _)
  rw [atoms_eq, List.pairwise_map]
  refine (pairwise_distinct rise).imp ?_
  rintro k l ⟨p, hp, rfl, before⟩
  refine ⟨p.2.lo, ?_, fun d hd => ?_⟩
  · rw [CharSet.mem_ofIntervals]
    refine ⟨p.2, List.mem_map.mpr ⟨p, List.mem_filter.mpr ⟨hp, by simp⟩, rfl⟩, ?_⟩
    exact Interval.mem_iff.mpr ⟨Char.le_refl _, p.2.lo_le_hi⟩
  · obtain ⟨s, hs, hds⟩ := CharSet.mem_ofIntervals.mp hd
    obtain ⟨q, hq, rfl⟩ := List.mem_map.mp hs
    obtain ⟨hq, same⟩ := List.mem_filter.mp hq
    have := before q hq (by simpa using same)
    have := p.2.ordinal_lo_le
    have := Interval.mem_iff_ordinal.mp hds
    rw [Char.lt_iff_ordinal_lt, Fin.lt_def]
    omega

end PatternAutomata
