import PatternAutomata.CharSet.Interval

/-!
# Sets of characters

A set is a list of intervals in rising order, any two of them separated by a character outside the
set. A set of characters has one such list, so equality of values is equality of sets.
-/
namespace PatternAutomata

/-- A set of characters, held as its maximal intervals in rising order. -/
structure CharSet where
  intervals : List Interval
  separated : intervals.Pairwise Interval.Before
  deriving DecidableEq

/-- The first intervals tell most sets apart. -/
instance : Hashable CharSet := ⟨fun s => hash (s.intervals.take 4)⟩

namespace CharSet

instance : Membership Char CharSet where
  mem s c := ∃ r ∈ s.intervals, c ∈ r

theorem mem_iff {s : CharSet} {c : Char} : c ∈ s ↔ ∃ r ∈ s.intervals, c ∈ r := Iff.rfl

instance : EmptyCollection CharSet := ⟨⟨[], .nil⟩⟩

/-- Puts an interval into a separated list; the members it meets or touches are absorbed. -/
def insertInto (r : Interval) : List Interval → List Interval
  | [] => [r]
  | s :: rest =>
    if r.Before s then r :: s :: rest
    else if s.Before r then s :: insertInto r rest
    else insertInto (r.hull s) rest

theorem before_of_mem_insertInto {q r t : Interval} {l : List Interval} (hr : q.Before r)
    (hl : ∀ s ∈ l, q.Before s) (ht : t ∈ insertInto r l) : q.Before t := by
  induction l generalizing r with
  | nil => simp_all [insertInto]
  | cons s rest ih =>
    have hs : q.Before s := hl s (by simp)
    have hrest : ∀ u ∈ rest, q.Before u := fun u hu => hl u (by simp [hu])
    unfold insertInto at ht
    split at ht
    · simp only [List.mem_cons] at ht
      rcases ht with rfl | rfl | ht
      · exact hr
      · exact hs
      · exact hrest _ ht
    · split at ht
      · rcases List.mem_cons.mp ht with rfl | ht
        · exact hs
        · exact ih hr hrest ht
      · exact ih (hr.hull hs) hrest ht

theorem pairwise_insertInto {l : List Interval} (r : Interval)
    (h : l.Pairwise Interval.Before) : (insertInto r l).Pairwise Interval.Before := by
  induction l generalizing r with
  | nil => simp [insertInto]
  | cons s rest ih =>
    have hs := List.pairwise_cons.mp h
    unfold insertInto
    split
    · refine List.pairwise_cons.mpr ⟨fun t ht => ?_, h⟩
      rcases List.mem_cons.mp ht with rfl | ht
      · assumption
      · exact Interval.Before.trans ‹r.Before s› (hs.1 t ht)
    · split
      · exact List.pairwise_cons.mpr
          ⟨fun t ht => before_of_mem_insertInto ‹s.Before r› hs.1 ht, ih r hs.2⟩
      · exact ih _ hs.2

theorem mem_insertInto {l : List Interval} {r : Interval} {c : Char} :
    (∃ t ∈ insertInto r l, c ∈ t) ↔ c ∈ r ∨ ∃ t ∈ l, c ∈ t := by
  induction l generalizing r with
  | nil => simp [insertInto]
  | cons s rest ih =>
    unfold insertInto
    split
    · simp
    · split
      · simp only [List.mem_cons, or_and_right, exists_or, exists_eq_left, ih]
        exact or_left_comm
      · rw [ih, Interval.mem_hull ‹_› ‹_›]
        simp only [List.mem_cons, or_and_right, exists_or, exists_eq_left, or_assoc]

/-- The set with one more interval of characters in it. -/
def insert (r : Interval) (s : CharSet) : CharSet :=
  ⟨insertInto r s.intervals, pairwise_insertInto r s.separated⟩

@[simp]
theorem mem_insert {r : Interval} {s : CharSet} {c : Char} : c ∈ s.insert r ↔ c ∈ r ∨ c ∈ s :=
  mem_insertInto

/-- The characters of the given intervals, which may overlap and come in any order. -/
def ofIntervals (rs : List Interval) : CharSet := rs.foldr insert ∅

@[simp]
theorem mem_ofIntervals {rs : List Interval} {c : Char} :
    c ∈ ofIntervals rs ↔ ∃ r ∈ rs, c ∈ r := by
  induction rs with
  | nil => simp [ofIntervals, mem_iff, EmptyCollection.emptyCollection]
  | cons r rest ih =>
    rw [ofIntervals, List.foldr_cons, mem_insert, ← ofIntervals, ih]
    simp only [List.mem_cons, or_and_right, exists_or, exists_eq_left]

/-- Whether the first interval starts no later than the second. -/
def startsFirst (r s : Interval) : Bool := r.lo ≤ s.lo

/-- The characters of the given ranges, each given by its two ends in any order. -/
def ofRanges (ranges : List (Char × Char)) : CharSet :=
  ofIntervals ((ranges.map fun (a, b) => Interval.between a b).mergeSort startsFirst)

def single (c : Char) : CharSet := ⟨[Interval.single c], List.pairwise_singleton ..⟩

/-- The set of the characters between two ends, given in any order. -/
def range (a b : Char) : CharSet := ⟨[Interval.between a b], List.pairwise_singleton ..⟩

def any : CharSet := range '\x00' (Char.ofNat 0x10FFFF)

instance : Union CharSet where
  union s t := ofIntervals (s.intervals.merge t.intervals startsFirst)

/-- The intervals that the given ones leave uncovered from the ordinal `start` on. -/
def gapsFrom (start : Nat) : List Interval → List Interval
  | [] => (Interval.ofOrdinals? start Char.numCodePoints).toList
  | r :: rest =>
    (Interval.ofOrdinals? start r.lo.ordinal.val).toList ++ gapsFrom (r.hi.ordinal.val + 1) rest

def negate (s : CharSet) : CharSet := ofIntervals (gapsFrom 0 s.intervals)

def inter (s t : CharSet) : CharSet := (s.negate ∪ t.negate).negate

instance : Inter CharSet := ⟨inter⟩

def diff (s t : CharSet) : CharSet := s ∩ t.negate

instance : SDiff CharSet := ⟨diff⟩

def isEmpty (s : CharSet) : Bool := s.intervals.isEmpty

/-- Looks a character up, stopping at the first interval that starts beyond it. -/
def search (c : Char) : List Interval → Bool
  | [] => false
  | r :: rest => r.lo ≤ c && (c ≤ r.hi || search c rest)

def contains (s : CharSet) (c : Char) : Bool := search c s.intervals

theorem contains_iff {s : CharSet} {c : Char} : s.contains c = true ↔ c ∈ s := by
  obtain ⟨l, h⟩ := s
  simp only [contains, mem_iff]
  induction l with
  | nil => simp [search]
  | cons r rest ih =>
    have hr := List.pairwise_cons.mp h
    simp only [search, Bool.and_eq_true, Bool.or_eq_true, decide_eq_true_eq, ih hr.2,
      List.mem_cons, or_and_right, exists_or, exists_eq_left, Interval.mem_iff]
    refine ⟨fun ⟨a, b⟩ => b.imp_left fun b => ⟨a, b⟩, fun h => ?_⟩
    rcases h with h | ⟨t, ht, hc⟩
    · exact ⟨h.1, .inl h.2⟩
    · refine ⟨?_, .inr ⟨t, ht, hc⟩⟩
      have hb := hr.1 t ht
      have := r.ordinal_lo_le
      have hc := Interval.mem_iff_ordinal.mp hc
      rw [Char.le_iff_ordinal_le, Fin.le_def]
      unfold Interval.Before at hb
      omega

instance (s : CharSet) (c : Char) : Decidable (c ∈ s) := decidable_of_iff _ contains_iff

def single? (s : CharSet) : Option Char :=
  match s.intervals with
  | [r] => if r.lo = r.hi then some r.lo else none
  | _ => none

end CharSet

end PatternAutomata
