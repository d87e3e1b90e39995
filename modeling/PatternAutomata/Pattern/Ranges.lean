import PatternAutomata.Unicode.Folding

/-!
# Ranges of code points

A class in a pattern is a row of ranges. Two ranges are joined when they overlap or one of them
starts at the code point after the end of the other. No range ends at a surrogate, so nothing joins
U+D7FF and U+E000, although no character lies between them: a class can have the same characters as
another one and still be a different row.
-/
namespace PatternAutomata

namespace Interval

/-- Two intervals overlap, or one starts at the code point after the end of the other. -/
def Meets (r s : Interval) : Prop :=
  r.lo.toNat ≤ s.hi.toNat + 1 ∧ s.lo.toNat ≤ r.hi.toNat + 1

instance (r s : Interval) : Decidable (r.Meets s) := inferInstanceAs (Decidable (_ ∧ _))

/-- Code points that follow each other belong to characters that do. -/
theorem ordinal_le_succ {a b : Char} (h : a.toNat ≤ b.toNat + 1) :
    a.ordinal.val ≤ b.ordinal.val + 1 := by
  have ha := a.valid
  have hb := b.valid
  simp only [UInt32.isValidChar, Nat.isValidChar] at ha hb
  simp only [Char.coe_ordinal, Char.numSurrogates, UInt32.lt_iff_toNat_lt, UInt32.reduceToNat]
  have : a.toNat = a.val.toNat := rfl
  have : b.toNat = b.val.toNat := rfl
  split <;> split <;> omega

theorem Meets.mem_hull {r s : Interval} {c : Char} (h : r.Meets s) :
    c ∈ r.hull s ↔ c ∈ r ∨ c ∈ s :=
  Interval.mem_hull (Nat.not_lt.mpr (ordinal_le_succ h.2)) (Nat.not_lt.mpr (ordinal_le_succ h.1))

/-- The characters that two intervals share, if there are any. -/
def meet? (r s : Interval) : Option Interval :=
  let lo := if r.lo ≤ s.lo then s.lo else r.lo
  let hi := if r.hi ≤ s.hi then r.hi else s.hi
  if h : lo ≤ hi then some ⟨lo, hi, h⟩ else none

end Interval

namespace Pattern

/-- The characters of a class, as a row of ranges. -/
structure Ranges where
  row : List Interval
  deriving DecidableEq

namespace Ranges

/-- The character after the given one. The last character stands for its own successor. -/
def next (c : Char) : Char := c.succ?.getD c

/-- The character before the given one. The first character stands for its own predecessor. -/
def previous (c : Char) : Char := Char.ofOrdinal ⟨c.ordinal.val - 1, by omega⟩

/-- Joins each range of a rising row with those after it that it meets. -/
def joinFrom (r : Interval) : List Interval → List Interval
  | [] => [r]
  | s :: rest => if r.Meets s then joinFrom (r.hull s) rest else r :: joinFrom s rest

theorem mem_joinFrom {l : List Interval} {r : Interval} {c : Char} :
    (∃ t ∈ joinFrom r l, c ∈ t) ↔ c ∈ r ∨ ∃ t ∈ l, c ∈ t := by
  induction l generalizing r with
  | nil => simp [joinFrom]
  | cons s rest ih =>
    unfold joinFrom
    split
    · rw [ih, Interval.Meets.mem_hull ‹_›]
      simp only [List.mem_cons, or_and_right, exists_or, exists_eq_left, or_assoc]
    · simp only [List.mem_cons, or_and_right, exists_or, exists_eq_left, ih]

/-- The given ranges in rising order, joined where they meet. -/
def ofIntervals (rs : List Interval) : Ranges :=
  match rs.mergeSort CharSet.startsFirst with
  | [] => ⟨[]⟩
  | r :: rest => ⟨joinFrom r rest⟩

def ofSet (s : CharSet) : Ranges := ⟨s.intervals⟩

def ofChars (cs : List Char) : Ranges := ofIntervals (cs.map Interval.single)

def chars (r : Ranges) : CharSet := CharSet.ofIntervals r.row

theorem mem_chars {r : Ranges} {c : Char} : c ∈ r.chars ↔ ∃ s ∈ r.row, c ∈ s :=
  CharSet.mem_ofIntervals

@[simp]
theorem mem_ofSet {s : CharSet} {c : Char} : c ∈ (ofSet s).chars ↔ c ∈ s := mem_chars

/-- Joining ranges adds no character and loses none. -/
@[simp]
theorem mem_ofIntervals {rs : List Interval} {c : Char} :
    c ∈ (ofIntervals rs).chars ↔ ∃ r ∈ rs, c ∈ r := by
  have sorted : (∃ r ∈ rs.mergeSort CharSet.startsFirst, c ∈ r) ↔ ∃ r ∈ rs, c ∈ r := by
    simp only [List.mem_mergeSort]
  rw [← sorted, mem_chars, ofIntervals]
  cases rs.mergeSort CharSet.startsFirst with
  | nil => simp
  | cons r rest =>
    simp only [mem_joinFrom, List.mem_cons, or_and_right, exists_or, exists_eq_left]

instance : EmptyCollection Ranges := ⟨⟨[]⟩⟩

instance : Union Ranges := ⟨fun r s => ofIntervals (r.row ++ s.row)⟩

@[simp]
theorem mem_union {r s : Ranges} {c : Char} :
    c ∈ (r ∪ s).chars ↔ c ∈ r.chars ∨ c ∈ s.chars := by
  simp only [@mem_chars r, @mem_chars s, ← exists_or, ← or_and_right]
  exact mem_ofIntervals.trans (by simp only [List.mem_append])

def unions (rs : List Ranges) : Ranges := ofIntervals (rs.flatMap row)

@[simp]
theorem mem_unions {rs : List Ranges} {c : Char} :
    c ∈ (unions rs).chars ↔ ∃ r ∈ rs, c ∈ r.chars := by
  rw [unions, mem_ofIntervals]
  simp only [mem_chars, List.mem_flatMap]
  exact ⟨fun ⟨s, ⟨r, hr, hs⟩, hc⟩ => ⟨r, hr, s, hs, hc⟩,
    fun ⟨r, hr, s, hs, hc⟩ => ⟨s, ⟨r, hr, hs⟩, hc⟩⟩

/-- The same ranges, joined where they meet. -/
def joined (r : Ranges) : Ranges := ofIntervals r.row

@[simp]
theorem mem_joined {r : Ranges} {c : Char} : c ∈ r.joined.chars ↔ c ∈ r.chars := by
  rw [joined, mem_ofIntervals, mem_chars]

/-- The class with the given characters added. -/
def withChars (r : Ranges) (cs : List Char) : Ranges :=
  ofIntervals (r.row ++ cs.map Interval.single)

/-- The ranges between and after the given ones, of which the first is `r`. Between U+D7FF and
U+E000 that is the range of these two, as there is nothing between them. -/
def gapsFrom (r : Interval) : List Interval → List Interval
  | [] =>
    if r.hi < Char.ofNat 0x10FFFF then [.between (next r.hi) (Char.ofNat 0x10FFFF)] else []
  | s :: rest => .between (next r.hi) (previous s.lo) :: gapsFrom s rest

/-- What a class leaves out, in ranges that are not joined. -/
def negate (r : Ranges) : Ranges :=
  match r.row with
  | [] => ofSet CharSet.any
  | r :: rest =>
    ⟨(if '\x00' < r.lo then [.between '\x00' (previous r.lo)] else []) ++ gapsFrom r rest⟩

def shared : List Interval → List Interval → List Interval
  | r :: rs, s :: ss =>
    (r.meet? s).toList ++
      if r.hi < s.hi then shared rs (s :: ss) else shared (r :: rs) ss
  | _, _ => []
termination_by rs ss => rs.length + ss.length

instance : Inter Ranges := ⟨fun r s => ⟨shared r.row s.row⟩⟩

/-- What a rising row leaves of another one. -/
def remaining : List Interval → List Interval → List Interval
  | r :: rs, s :: ss =>
    if s.hi < r.lo then remaining (r :: rs) ss
    else if r.hi < s.lo then r :: remaining rs (s :: ss)
    else
      (if r.lo < s.lo then [.between r.lo (previous s.lo)] else []) ++
        if s.hi < r.hi then remaining (.between (next s.hi) r.hi :: rs) ss
        else remaining rs (s :: ss)
  | rs, _ => rs
termination_by rs ss => rs.length + ss.length

instance : SDiff Ranges := ⟨fun r s => ⟨remaining r.row s.row⟩⟩

/-- The characters in exactly one of two classes. -/
def symmDiff (r s : Ranges) : Ranges := (r ∪ s) \ (r ∩ s)

def isEmpty (r : Ranges) : Bool := r.row.isEmpty

def single? (r : Ranges) : Option Char :=
  match r.row with
  | [s] => if s.lo = s.hi then some s.lo else none
  | _ => none

end Ranges

end Pattern

end PatternAutomata
