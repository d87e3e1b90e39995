import Std.Data.HashSet.Lemmas

/-!
# Rising lists

Sets of numbers as lists in rising order. `mem_rising` states that a list keeps its numbers, and
`pairwise_rising` that each of them comes once and in order.
-/
namespace PatternAutomata

/-- The numbers of a list in rising order, each once. -/
def rising (ns : List Nat) : List Nat := (Std.HashSet.ofList ns).toList.mergeSort

@[simp]
theorem mem_rising {n : Nat} {ns : List Nat} : n ∈ rising ns ↔ n ∈ ns := by
  simp [rising]

theorem pairwise_rising (ns : List Nat) : (rising ns).Pairwise (· < ·) := by
  have trans (a b c : Nat) : decide (a ≤ b) → decide (b ≤ c) → decide (a ≤ c) := by
    simpa using Nat.le_trans
  have total (a b : Nat) : decide (a ≤ b) || decide (b ≤ a) := by
    simpa using Nat.le_total a b
  have sorted : (rising ns).Pairwise (· ≤ ·) := by
    simpa [rising] using List.pairwise_mergeSort trans total (Std.HashSet.ofList ns).toList
  have once : (rising ns).Nodup := by
    refine (List.mergeSort_perm ..).nodup_iff.mpr ?_
    simpa [List.Nodup] using (Std.HashSet.ofList ns).distinct_toList
  exact sorted.imp₂ (fun _ _ h k => Nat.lt_of_le_of_ne h k) once

end PatternAutomata
