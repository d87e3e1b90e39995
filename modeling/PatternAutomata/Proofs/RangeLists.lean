import PatternAutomata.Proofs.CodePoints

/-!
# Sets held as lists of ranges

A set can be held as the list of its ranges, each with the characters at its two ends, and worked
with at code points. Ranges that come in any order are sorted and joined where one starts no later
than the code point behind another; what lies between the ranges is cut back to characters; a
character is looked up by halving the list. All of this is what is done to the set itself
(`Recipe.listed_spec`).
-/
namespace PatternAutomata

/-- The characters at the two ends. -/
def Interval.ends (r : Interval) : Char × Char := (r.lo, r.hi)

def CharSet.ranges (s : CharSet) : List (Char × Char) := s.intervals.map Interval.ends

/-- The code point of the character that follows, or the one behind the last character. -/
def nextScalar (c : Char) : Nat := if c.toNat = 0xD7FF then 0xE000 else c.toNat + 1

namespace RangeList

def inOrder (p : Char × Char) : Char × Char := if p.1 ≤ p.2 then p else (p.2, p.1)

/-- Whether the first range starts earlier, or at the same character and ends no later. -/
def comesFirst (p q : Char × Char) : Bool := p.1 < q.1 || p.1 = q.1 && p.2 ≤ q.2

/-- Takes a range in. The last one, which is listed first, grows if the range meets or touches
it. -/
def join : List (Char × Char) → Char × Char → List (Char × Char)
  | [], p => [p]
  | last :: front, p =>
    if p.1.toNat ≤ nextScalar last.2 then
      (if last.2 < p.2 then (last.1, p.2) else last) :: front
    else p :: last :: front

/-- The ranges that hold the characters of the given ones, which come in any order. -/
def joined (ps : List (Char × Char)) : List (Char × Char) :=
  (((ps.map inOrder).mergeSort comesFirst).foldl join []).reverse

/-- The ranges of characters between the given ones, from a code point on. -/
def gaps (next : Nat) : List (Char × Char) → List (Char × Char)
  | [] => (scalarRange? next 0x10FFFF).toList
  | (first, last) :: rest =>
    (if first.toNat > next then (scalarRange? next (first.toNat - 1)).toList else []) ++
      gaps (nextScalar last) rest

def negate (ps : List (Char × Char)) : List (Char × Char) := joined (gaps 0 ps)

/-- Looks a character up in the range in the middle and in the half that it can be in. -/
def holds (c : Char) (ps : List (Char × Char)) : Bool :=
  match h : ps.drop (ps.length / 2) with
  | [] => false
  | p :: back =>
    if c < p.1 then holds c (ps.take (ps.length / 2))
    else if p.2 < c then holds c back
    else true
termination_by ps.length
decreasing_by
  all_goals
    have length := congrArg List.length h
    simp only [List.length_drop, List.length_cons] at length
  · rw [List.length_take]
    omega
  · omega

def single? : List (Char × Char) → Option Char
  | [p] => if p.1 = p.2 then some p.1 else none
  | _ => none

end RangeList

/-- The list of ranges that is put together. -/
def Recipe.listed : Recipe → List (Char × Char)
  | empty => []
  | any => [('\x00', Char.ofNat 0x10FFFF)]
  | single c => [(c, c)]
  | range a b => RangeList.joined [(a, b)]
  | ranges rs => RangeList.joined rs
  | union r s => RangeList.joined (r.listed ++ s.listed)
  | negate r => RangeList.negate r.listed

theorem isBound_nextScalar (c : Char) : IsBound (nextScalar c) := by
  unfold nextScalar
  split
  · exact ⟨'\uE000', .inl rfl⟩
  · exact ⟨c, .inr rfl⟩

theorem place_nextScalar (c : Char) : place (nextScalar c) = c.ordinal.val + 1 := by
  unfold nextScalar
  split
  · next last =>
    rw [ordinal_eq_place, last]
    rfl
  · exact place_succ c

theorem toNat_le_nextScalar_iff {c d : Char} :
    d.toNat ≤ nextScalar c ↔ d.ordinal.val ≤ c.ordinal.val + 1 := by
  have validc := isValid c
  have validd := isValid d
  rw [ordinal_eq_place, ordinal_eq_place]
  simp only [nextScalar, place]
  grind

namespace RangeList

variable {r last : Interval} {old new rs : List Interval} {c : Char}

theorem inOrder_eq (p : Char × Char) : inOrder p = (Interval.between p.1 p.2).ends := by
  unfold inOrder Interval.between
  split
  · rfl
  · rfl

/-! ### Joining -/

/-- Nothing of the intervals so far starts behind the given one. -/
def Ahead (old : List Interval) (r : Interval) : Prop := ∀ t ∈ old.head?, t.lo ≤ r.lo

/-- Intervals, the last one first, that hold the characters of the old ones and the further ones,
and which characters outside separate. -/
structure Joins (old rs new : List Interval) : Prop where
  rising : new.Pairwise fun r s => s.Before r
  mem : ∀ c, (∃ t ∈ new, c ∈ t) ↔ (∃ t ∈ old, c ∈ t) ∨ ∃ t ∈ rs, c ∈ t

/-- The last interval grows to what holds both. -/
theorem ends_hull (order : last.lo ≤ r.lo) :
    (last.hull r).ends = if last.hi < r.hi then (last.lo, r.hi) else last.ends := by
  unfold Interval.ends Interval.hull
  simp only [if_pos order]
  split
  · next le =>
    split
    · rfl
    · next not => rw [Char.le_antisymm (Char.not_lt.mp not) le]
  · next not => rw [if_neg fun lt => not (Std.le_of_lt lt)]

theorem join_cons (order : last.lo ≤ r.lo) (front : List (Char × Char)) :
    join (last.ends :: front) r.ends =
      if last.Before r then r.ends :: last.ends :: front else (last.hull r).ends :: front := by
  have near : r.lo.toNat ≤ nextScalar last.hi ↔ ¬ last.Before r :=
    toNat_le_nextScalar_iff.trans Nat.not_lt.symm
  have step : join (last.ends :: front) r.ends = if r.lo.toNat ≤ nextScalar last.hi then
      (if last.hi < r.hi then (last.lo, r.hi) else last.ends) :: front
    else r.ends :: last.ends :: front := rfl
  rw [step, ends_hull order]
  by_cases before : last.Before r
  · rw [if_neg fun le => near.mp le before, if_pos before]
  · rw [if_pos (near.mpr before), if_neg before]

theorem exists_join (rising : old.Pairwise fun r s => s.Before r) (ahead : Ahead old r) :
    ∃ new, join (old.map Interval.ends) r.ends = new.map Interval.ends ∧ Joins old [r] new ∧
      Ahead new r := by
  cases old with
  | nil =>
    refine ⟨[r], rfl, ⟨List.pairwise_singleton _ _, fun c => ?_⟩, ?_⟩
    · simp
    · simp [Ahead]
  | cons last front =>
    have order : last.lo ≤ r.lo := ahead last rfl
    have first : last.lo.ordinal.val ≤ r.lo.ordinal.val := Char.le_iff_ordinal_le.mp order
    obtain ⟨below, rising'⟩ := List.pairwise_cons.mp rising
    rw [List.map_cons, join_cons order]
    split
    · next before =>
      refine ⟨r :: last :: front, rfl, ⟨List.pairwise_cons.mpr ⟨?_, rising⟩, fun c => ?_⟩, ?_⟩
      · exact List.forall_mem_cons.mpr ⟨before, fun t ht => (below t ht).trans before⟩
      · simp [or_comm]
      · simp [Ahead]
    · next near =>
      have behind : ¬ r.Before last := by
        have := r.ordinal_lo_le
        unfold Interval.Before
        omega
      refine ⟨last.hull r :: front, rfl, ⟨List.pairwise_cons.mpr ⟨?_, rising'⟩, fun c => ?_⟩, ?_⟩
      · intro t ht
        have under : t.hi.ordinal.val + 1 < last.lo.ordinal.val := below t ht
        exact (below t ht).hull (Nat.lt_of_lt_of_le under first)
      · simp only [List.mem_cons, List.not_mem_nil, or_false, exists_eq_or_imp, exists_eq_left,
          Interval.mem_hull near behind, or_right_comm]
      · simp [Ahead, Interval.hull, order]

/-- Intervals are joined one after another in the order in which they start. -/
theorem exists_foldl_join (rising : old.Pairwise fun r s => s.Before r)
    (sorted : rs.Pairwise fun r s => r.lo ≤ s.lo) (ahead : ∀ r ∈ rs, Ahead old r) :
    ∃ new, (rs.map Interval.ends).foldl join (old.map Interval.ends) = new.map Interval.ends ∧
      Joins old rs new := by
  induction rs generalizing old with
  | nil => exact ⟨old, rfl, rising, by simp⟩
  | cons r rs ih =>
    obtain ⟨first, sorted'⟩ := List.pairwise_cons.mp sorted
    obtain ⟨mid, step, joins, top⟩ := exists_join rising (ahead r List.mem_cons_self)
    have ahead' : ∀ s ∈ rs, Ahead mid s := by
      intro s hs t ht
      exact Char.le_trans (top t ht) (first s hs)
    obtain ⟨new, steps, joins'⟩ := ih joins.rising sorted' ahead'
    refine ⟨new, ?_, joins'.rising, fun c => ?_⟩
    · rw [List.map_cons, List.foldl_cons, step, steps]
    · rw [joins'.mem, joins.mem]
      simp only [List.mem_cons, List.not_mem_nil, or_false, exists_eq_left, or_and_right,
        exists_or, or_assoc]

theorem comesFirst_trans (p q s : Char × Char) (h : comesFirst p q = true)
    (h' : comesFirst q s = true) : comesFirst p s = true := by
  simp only [comesFirst, Bool.or_eq_true, Bool.and_eq_true, decide_eq_true_eq] at *
  rcases h with lt | ⟨eq, le⟩
  · refine .inl ?_
    rcases h' with lt' | ⟨eq', -⟩
    · exact Char.lt_trans lt lt'
    · exact eq' ▸ lt
  · rw [eq]
    exact h'.imp_right fun h' => ⟨h'.1, Char.le_trans le h'.2⟩

theorem comesFirst_total (p q : Char × Char) : (comesFirst p q || comesFirst q p) = true := by
  simp only [comesFirst, Bool.or_eq_true, Bool.and_eq_true, decide_eq_true_eq]
  by_cases eq : p.1 = q.1
  · rcases Char.le_total p.2 q.2 with le | le
    · exact .inl (.inr ⟨eq, le⟩)
    · exact .inr (.inr ⟨eq.symm, le⟩)
  · by_cases lt : p.1 < q.1
    · exact .inl (.inl lt)
    · exact .inr (.inl (Std.lt_of_le_of_ne (Char.not_lt.mp lt) (Ne.symm eq)))

theorem le_of_comesFirst {p q : Char × Char} (h : comesFirst p q = true) : p.1 ≤ q.1 := by
  simp only [comesFirst, Bool.or_eq_true, Bool.and_eq_true, decide_eq_true_eq] at h
  rcases h with lt | ⟨eq, -⟩
  · exact Std.le_of_lt lt
  · exact eq ▸ Char.le_refl _

/-- In the order in which they are joined, pairs of characters are the ends of intervals. -/
theorem exists_sorted (ps : List (Char × Char)) : ∃ rs : List Interval,
    (ps.map inOrder).mergeSort comesFirst = rs.map Interval.ends ∧
      rs.Pairwise (fun r s => r.lo ≤ s.lo) ∧
        ∀ r, r ∈ rs ↔ ∃ p ∈ ps, Interval.between p.1 p.2 = r := by
  refine ⟨(ps.map fun p => Interval.between p.1 p.2).mergeSort
    fun r s => comesFirst r.ends s.ends, ?_, ?_, fun r => ?_⟩
  · rw [List.map_mergeSort (s := comesFirst) fun _ _ _ _ => rfl, List.map_map]
    exact congrArg (List.mergeSort · comesFirst) (List.map_congr_left fun p _ => inOrder_eq p)
  · have order := List.pairwise_mergeSort (fun r s t => comesFirst_trans r.ends s.ends t.ends)
      (fun r s => comesFirst_total r.ends s.ends) (ps.map fun p => Interval.between p.1 p.2)
    exact order.imp le_of_comesFirst
  · rw [List.mem_mergeSort, List.mem_map]

/-- The joined ranges are those of the set of their characters. -/
theorem joined_eq (ps : List (Char × Char)) : joined ps = (CharSet.ofRanges ps).ranges := by
  obtain ⟨rs, sort, sorted, members⟩ := exists_sorted ps
  have none : ([] : List Interval).Pairwise fun r s => s.Before r := .nil
  obtain ⟨new, fold, joins⟩ := exists_foldl_join none sorted (by simp [Ahead])
  have same : new.reverse = (CharSet.ofRanges ps).intervals := by
    refine CharSet.intervals_ext (List.pairwise_reverse.mpr joins.rising) ?_ fun c => ?_
    · exact (CharSet.ofRanges ps).separated
    · have mem := joins.mem c
      simp only [List.not_mem_nil, false_and, exists_false, false_or, members] at mem
      simp only [List.mem_reverse, mem, ← CharSet.mem_iff, CharSet.mem_ofRanges,
        exists_exists_and_eq_and]
  unfold joined CharSet.ranges
  rw [sort, ← same, List.map_reverse]
  exact congrArg List.reverse fold

theorem ofRanges_ends (rs : List Interval) :
    CharSet.ofRanges (rs.map Interval.ends) = CharSet.ofIntervals rs := by
  apply CharSet.ext_mem
  intro c
  simp [Interval.ends]

/-! ### Gaps -/

/-- Between a bound and a later one lies what lies between their places. -/
theorem map_scalarRange? {a b : Nat} (ha : IsBound a) (hb : IsBound b) (lt : a < b) :
    (scalarRange? a (b - 1)).toList =
      (Interval.ofOrdinals? (place a) (place b)).toList.map Interval.ends := by
  have between := map_between? ha hb lt
  rw [← between]
  unfold between?
  cases range : scalarRange? a (b - 1) with
  | none => rfl
  | some r =>
    have order : inOrder r = r := if_pos (le_of_scalarRange? range)
    simp [← inOrder_eq, order]

theorem ofOrdinals?_of_le {a b : Nat} (le : b ≤ a) : Interval.ofOrdinals? a b = none :=
  dif_neg fun h => Nat.not_lt.mpr le h.1

theorem gaps_ends {next : Nat} (bound : IsBound next) (rs : List Interval) :
    gaps next (rs.map Interval.ends) =
      (CharSet.gapsFrom (place next) rs).map Interval.ends := by
  induction rs generalizing next with
  | nil =>
    have behind : IsBound 0x110000 := ⟨Char.ofNat 0x10FFFF, .inr rfl⟩
    have all : place 0x110000 = Char.numCodePoints := rfl
    by_cases lt : next < 0x110000
    · exact map_scalarRange? bound behind lt
    · have valid := bound.valid
      have last : next = 0x110000 := by omega
      subst last
      rfl
  | cons r rs ih =>
    have start : IsBound r.lo.toNat := ⟨r.lo, .inl rfl⟩
    have rest := ih (isBound_nextScalar r.hi)
    rw [place_nextScalar] at rest
    rw [List.map_cons, Interval.ends, gaps, rest, CharSet.gapsFrom, List.map_append,
      ordinal_eq_place r.lo]
    congr 1
    split
    · next lt => exact map_scalarRange? bound start lt
    · next le =>
      rw [ofOrdinals?_of_le (place_mono (Nat.not_lt.mp le))]
      rfl

theorem negate_ranges (s : CharSet) : negate s.ranges = s.negate.ranges := by
  have bound : IsBound 0 := ⟨'\x00', .inl rfl⟩
  unfold negate CharSet.ranges
  rw [gaps_ends bound, joined_eq, ofRanges_ends]
  rfl

theorem joined_ranges (s t : CharSet) : joined (s.ranges ++ t.ranges) = (s ∪ t).ranges := by
  have both : s.ranges ++ t.ranges = (s.intervals ++ t.intervals).map Interval.ends :=
    List.map_append.symm
  rw [joined_eq, both, ofRanges_ends]
  refine congrArg CharSet.ranges (CharSet.ext_mem fun c => ?_)
  rw [CharSet.mem_ofIntervals, CharSet.mem_union]
  simp only [List.mem_append, or_and_right, exists_or, CharSet.mem_iff]

/-! ### Looking up -/

section
variable {ps front back : List (Char × Char)} {p q : Char × Char}

/-- The ranges are in order, and so are the ends of each. -/
structure Rising (ps : List (Char × Char)) : Prop where
  ordered : ∀ p ∈ ps, p.1 ≤ p.2
  apart : ps.Pairwise fun p q => p.2 < q.1

theorem rising_ranges (s : CharSet) : Rising s.ranges := by
  constructor
  · intro p hp
    obtain ⟨r, -, rfl⟩ := List.mem_map.mp hp
    exact r.lo_le_hi
  · refine List.pairwise_map.mpr (s.separated.imp fun before => ?_)
    exact Char.lt_iff_ordinal_lt.mpr (Nat.lt_of_succ_lt before)

/-- The ranges up to one end no later than it, and those from it on start no earlier. -/
theorem Rising.split (h : Rising (front ++ p :: back)) :
    (∀ q ∈ front ++ [p], q.2 ≤ p.2) ∧ ∀ q ∈ p :: back, p.1 ≤ q.1 := by
  obtain ⟨-, later, below⟩ := List.pairwise_append.mp h.apart
  obtain ⟨above, -⟩ := List.pairwise_cons.mp later
  have own : p.1 ≤ p.2 := h.ordered p (by simp)
  constructor
  · refine List.forall_mem_append.mpr ⟨fun q hq => ?_, by simp⟩
    exact Char.le_trans (Std.le_of_lt (below q hq p List.mem_cons_self)) own
  · refine List.forall_mem_cons.mpr ⟨Char.le_refl _, fun q hq => ?_⟩
    exact Char.le_trans own (Std.le_of_lt (above q hq))

theorem Rising.sublist (h : Rising ps) (sub : front.Sublist ps) : Rising front :=
  ⟨fun p hp => h.ordered p (sub.subset hp), h.apart.sublist sub⟩

theorem exists_mem_append {P : Char × Char → Prop} :
    (∃ q ∈ front ++ back, P q) ↔ (∃ q ∈ front, P q) ∨ ∃ q ∈ back, P q := by
  simp only [List.mem_append, or_and_right, exists_or]

/-- Where the ranges rise, the half that is given up lies beyond the range in the middle. -/
theorem holds_iff (h : Rising ps) : holds c ps = true ↔ ∃ p ∈ ps, p.1 ≤ c ∧ c ≤ p.2 := by
  fun_induction holds c ps with
  | case1 ps none =>
    have length := congrArg List.length none
    simp only [List.length_drop, List.length_nil] at length
    have empty : ps = [] := List.eq_nil_of_length_eq_zero (by omega)
    simp [empty]
  | case2 ps p back half below ih =>
    have parts : ps.take (ps.length / 2) ++ p :: back = ps := half ▸ List.take_append_drop ..
    have later := (parts ▸ h).split.2
    have out : ¬ ∃ q ∈ p :: back, q.1 ≤ c ∧ c ≤ q.2 := by
      intro ⟨q, hq, first, _⟩
      exact Std.not_lt.mpr (Char.le_trans (later q hq) first) below
    conv_rhs => rw [← parts]
    rw [ih (h.sublist (List.take_sublist ..)), exists_mem_append, or_iff_left out]
  | case3 ps p back half low above ih =>
    have parts : ps.take (ps.length / 2) ++ p :: back = ps := half ▸ List.take_append_drop ..
    have earlier := (parts ▸ h).split.1
    have out : ¬ ∃ q ∈ ps.take (ps.length / 2) ++ [p], q.1 ≤ c ∧ c ≤ q.2 := by
      intro ⟨q, hq, _, last⟩
      exact Std.not_lt.mpr (Char.le_trans last (earlier q hq)) above
    have rest : back.Sublist ps := (List.sublist_cons_self ..).trans (half ▸ List.drop_sublist ..)
    conv_rhs => rw [← parts, List.append_cons]
    rw [ih (h.sublist rest), exists_mem_append, or_iff_right out]
  | case4 ps p back half low high =>
    have inside : p ∈ ps := List.mem_of_mem_drop (half ▸ List.mem_cons_self)
    exact iff_of_true rfl ⟨p, inside, Std.not_lt.mp low, Std.not_lt.mp high⟩

end

theorem holds_ranges (s : CharSet) (c : Char) : holds c s.ranges = s.contains c := by
  rw [Bool.eq_iff_iff, CharSet.contains_iff, holds_iff (rising_ranges s)]
  simp only [CharSet.ranges, List.mem_map, exists_exists_and_eq_and]
  rfl

theorem single?_ranges (s : CharSet) : single? s.ranges = s.single? := by
  obtain ⟨rs, separated⟩ := s
  cases rs with
  | nil => rfl
  | cons r rest =>
    cases rest with
    | nil => rfl
    | cons => rfl

end RangeList

namespace Recipe

open RangeList

theorem listed_eq (r : Recipe) : r.listed = r.set.ranges := by
  induction r with
  | empty => rfl
  | any => rfl
  | single c => rfl
  | range a b =>
    refine (joined_eq [(a, b)]).trans (congrArg CharSet.ranges (CharSet.ext_mem fun c => ?_))
    simp [set, CharSet.mem_range_iff]
  | ranges rs => exact joined_eq rs
  | union r s ihr ihs => rw [listed, ihr, ihs, joined_ranges, set]
  | negate r ih => rw [listed, ih, negate_ranges, set]

/-- What is put together on lists of ranges is the list of the ranges of the set, and it answers as
the set does. -/
theorem listed_spec (r : Recipe) : r.listed = r.set.ranges ∧
    (∀ c, holds c r.listed = r.set.contains c) ∧ RangeList.single? r.listed = r.set.single? := by
  rw [listed_eq]
  exact ⟨rfl, holds_ranges r.set, single?_ranges r.set⟩

end Recipe

end PatternAutomata
