import Std.Data.HashSet.Lemmas

/-!
# Marks

A set of numbers below a bound, for searches that treat every number once. Marking a number that
was free leaves fewer free numbers, which is what ends such a search.
-/
namespace PatternAutomata

/-- A set of numbers below `n`. -/
structure Marks (n : Nat) where
  marked : Std.HashSet Nat

namespace Marks

def empty (n : Nat) : Marks n := ⟨∅⟩

def contains (m : Marks n) (i : Nat) : Bool := m.marked.contains i

/-- The set with one more number, if that number is below the bound and was free. -/
@[inline]
def mark? (m : Marks n) (i : Nat) : Option (Marks n) :=
  if i < n && !m.marked.contains i then some ⟨m.marked.insert i⟩ else none

def free (m : Marks n) : Nat := (List.range n).countP fun i => !m.contains i

def toList (m : Marks n) : List Nat := m.marked.toList.mergeSort

theorem contains_of_mark? {m m' : Marks n} {i j : Nat} (h : m.mark? i = some m') :
    m'.contains j = (i == j || m.contains j) := by
  unfold mark? at h
  split at h
  · cases h
    exact Std.HashSet.contains_insert
  · cases h

theorem free_lt_of_mark? {m m' : Marks n} {i : Nat} (h : m.mark? i = some m') :
    m'.free < m.free := by
  have hi : i < n ∧ m.contains i = false := by
    unfold mark? at h
    split at h
    · simp_all [contains]
    · cases h
  have split (l : List Nat) : l.countP (fun j => !m.contains j) =
      l.countP (fun j => !m'.contains j) + l.countP (· == i) := by
    induction l with
    | nil => rfl
    | cons j l ih =>
      simp only [List.countP_cons, contains_of_mark? h, ih]
      by_cases e : i = j
      · subst e
        simp [hi.2]
        omega
      · simp [e, Ne.symm e]
        omega
  have : 0 < (List.range n).countP (· == i) :=
    List.countP_pos_iff.mpr ⟨i, List.mem_range.mpr hi.1, by simp⟩
  have := split (List.range n)
  unfold free
  omega

end Marks

end PatternAutomata
