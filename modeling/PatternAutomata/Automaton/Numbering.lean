import Std.Data.HashMap.Lemmas

/-!
# Numberings

Distinct keys are numbered in the order in which they are first met. A key keeps its number
(`place?_number_of_place?`), and two keys never share one (`eq_of_place?`).
-/
namespace PatternAutomata

/-- Distinct keys, each known by its place. -/
structure Numbering (κ : Type) [DecidableEq κ] [Hashable κ] where
  keys : Array κ
  places : Std.HashMap κ Nat
  places_eq_some_iff : ∀ (k : κ) (i : Nat), places[k]? = some i ↔ keys[i]? = some k

namespace Numbering

variable {κ : Type} [DecidableEq κ] [Hashable κ]

def empty : Numbering κ := ⟨#[], ∅, by simp⟩

def size (n : Numbering κ) : Nat := n.keys.size

def place? (n : Numbering κ) (k : κ) : Option Nat := n.places[k]?

def push (n : Numbering κ) (k : κ) (new : n.places[k]? = none) : Numbering κ where
  keys := n.keys.push k
  places := n.places.insert k n.keys.size
  places_eq_some_iff l i := by
    have fresh (j : Nat) : n.keys[j]? ≠ some k := by
      simp [← n.places_eq_some_iff, new]
    rw [Std.HashMap.getElem?_insert, Array.getElem?_push]
    by_cases h : i = n.keys.size <;> by_cases e : k = l
    · simp [h, e]
    · have := mt (n.places_eq_some_iff l n.keys.size).mp
      simp [h, e]
      simpa using this
    · subst e
      simp [h, Ne.symm h, fresh]
    · simp [h, e, n.places_eq_some_iff]

/-- The number of a key, which is the next free one if the key is new. -/
def number (n : Numbering κ) (k : κ) : Numbering κ × Nat :=
  match h : n.places[k]? with
  | some i => (n, i)
  | none => (n.push k h, n.keys.size)

/-- The keys of a list, numbered in the order of the list. -/
def ofList (ks : List κ) : Numbering κ := ks.foldl (fun n k => (n.number k).1) empty

theorem eq_of_place? {n : Numbering κ} {k l : κ} {i : Nat} (h : n.place? k = some i)
    (h' : n.place? l = some i) : k = l := by
  rw [place?, n.places_eq_some_iff] at h h'
  exact Option.some.inj (h.symm.trans h')

theorem place?_number (n : Numbering κ) (k : κ) :
    (n.number k).1.place? k = some (n.number k).2 := by
  unfold number
  split
  · assumption
  · simp [place?, push]

theorem place?_number_of_place? {n : Numbering κ} {k l : κ} {i : Nat}
    (h : n.place? l = some i) : (n.number k).1.place? l = some i := by
  unfold number
  split
  · exact h
  · next new =>
    have : k ≠ l := fun e => by
      rw [place?, ← e, new] at h
      cases h
    simpa [place?, push, Std.HashMap.getElem?_insert, this] using h

end Numbering

/-- The keys of a list, each where it first occurs. -/
def distinct {κ : Type} [DecidableEq κ] [Hashable κ] (ks : List κ) : List κ :=
  (Numbering.ofList ks).keys.toList

/-- The distinct keys of a list of pairs in the order in which they first occur, each with the
values that come with it. -/
def gathered {κ β : Type} [DecidableEq κ] [Hashable κ] (ps : List (κ × β)) :
    List (κ × List β) :=
  let (n, groups) := ps.foldl (fun (n, groups) (k, b) =>
    let (n, i) := Numbering.number n k
    (n, if i < groups.size then groups.modify i (·.push b) else groups.push #[b]))
    (Numbering.empty, #[])
  n.keys.toList.zip (groups.toList.map Array.toList)

end PatternAutomata
