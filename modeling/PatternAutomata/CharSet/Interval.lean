/-!
# Intervals of characters

An interval is a nonempty run of consecutive characters with both ends included. Distances are
measured on ordinals, the numbering of the characters without the gap of the surrogates, so
U+D7FF and U+E000 are neighbours.
-/
namespace PatternAutomata

/-- A nonempty run of consecutive characters, both ends included. -/
structure Interval where
  lo : Char
  hi : Char
  lo_le_hi : lo ≤ hi
  deriving DecidableEq

instance : Hashable Interval := ⟨fun r => mixHash (hash r.lo.val) (hash r.hi.val)⟩

namespace Interval

instance : Membership Char Interval where
  mem r c := r.lo ≤ c ∧ c ≤ r.hi

theorem mem_iff {r : Interval} {c : Char} : c ∈ r ↔ r.lo ≤ c ∧ c ≤ r.hi := Iff.rfl

theorem mem_iff_ordinal {r : Interval} {c : Char} :
    c ∈ r ↔ r.lo.ordinal.val ≤ c.ordinal.val ∧ c.ordinal.val ≤ r.hi.ordinal.val := by
  rw [mem_iff, Char.le_iff_ordinal_le, Char.le_iff_ordinal_le, Fin.le_def, Fin.le_def]

theorem ordinal_lo_le (r : Interval) : r.lo.ordinal.val ≤ r.hi.ordinal.val :=
  Fin.le_def.mp (Char.ordinal_le_of_le r.lo_le_hi)

instance (r : Interval) (c : Char) : Decidable (c ∈ r) := inferInstanceAs (Decidable (_ ∧ _))

def single (c : Char) : Interval := ⟨c, c, Char.le_refl c⟩

/-- The interval between two characters, given in any order. -/
def between (a b : Char) : Interval :=
  if h : a ≤ b then ⟨a, b, h⟩ else ⟨b, a, (Char.le_total a b).resolve_left h⟩

/-- The characters whose ordinals run from `a` up to but not including `b`, if there are any. -/
def ofOrdinals? (a b : Nat) : Option Interval :=
  if h : a < b ∧ b ≤ Char.numCodePoints then
    some ⟨Char.ofOrdinal ⟨a, by omega⟩, Char.ofOrdinal ⟨b - 1, by omega⟩,
      Char.ofOrdinal_le_of_le (Fin.le_def.mpr (by simp only; omega))⟩
  else none

/-- `r` lies below `s` and at least one character separates them. -/
def Before (r s : Interval) : Prop := r.hi.ordinal.val + 1 < s.lo.ordinal.val

instance (r s : Interval) : Decidable (r.Before s) := inferInstanceAs (Decidable (_ < _))

theorem Before.trans {r s t : Interval} (h : r.Before s) (k : s.Before t) : r.Before t := by
  have := s.ordinal_lo_le
  unfold Before at *
  omega

/-- The smallest interval that holds both. -/
def hull (r s : Interval) : Interval where
  lo := if r.lo ≤ s.lo then r.lo else s.lo
  hi := if r.hi ≤ s.hi then s.hi else r.hi
  lo_le_hi := by
    have := r.lo_le_hi
    have := s.lo_le_hi
    split <;> split
    · exact Char.le_trans ‹r.lo ≤ s.lo› ‹s.lo ≤ s.hi›
    · exact ‹r.lo ≤ r.hi›
    · exact ‹s.lo ≤ s.hi›
    · exact Char.le_trans ‹s.lo ≤ s.hi› ((Char.le_total r.hi s.hi).resolve_left ‹¬ r.hi ≤ s.hi›)

theorem ordinal_hull_lo (r s : Interval) :
    (r.hull s).lo.ordinal.val = min r.lo.ordinal.val s.lo.ordinal.val := by
  simp only [hull, Char.le_iff_ordinal_le, Fin.le_def]
  split <;> omega

theorem ordinal_hull_hi (r s : Interval) :
    (r.hull s).hi.ordinal.val = max r.hi.ordinal.val s.hi.ordinal.val := by
  simp only [hull, Char.le_iff_ordinal_le, Fin.le_def]
  split <;> omega

theorem Before.hull {q r s : Interval} (h : q.Before r) (k : q.Before s) :
    q.Before (r.hull s) := by
  simp only [Before, ordinal_hull_lo] at *
  omega

/-- Two intervals that no character separates fill their hull. -/
theorem mem_hull {r s : Interval} {c : Char} (h : ¬ r.Before s) (k : ¬ s.Before r) :
    c ∈ r.hull s ↔ c ∈ r ∨ c ∈ s := by
  have := r.ordinal_lo_le
  have := s.ordinal_lo_le
  simp only [Before, mem_iff_ordinal, ordinal_hull_lo, ordinal_hull_hi] at *
  omega

end Interval

end PatternAutomata
