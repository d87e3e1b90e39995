import PatternAutomata.Proofs.CharSets
import Mathlib.Order.BooleanAlgebra.Set

/-!
# The Boolean algebra of sets of characters

A set of characters has one form only, so what holds of the characters in sets holds of the sets as
values: they are a Boolean algebra. `Recipe` is the language in which sets are put together, and
`Recipe.set_canonical` says what set a recipe makes and which form it has.
-/
namespace PatternAutomata

namespace CharSet

variable {s t : CharSet}

/-- The characters of a set. -/
def chars (s : CharSet) : Set Char := {c | c ∈ s}

theorem chars_injective : Function.Injective chars := fun _ _ same =>
  ext_mem fun c => Set.ext_iff.mp same c

instance : LE CharSet := ⟨fun s t => ∀ c ∈ s, c ∈ t⟩

instance : LT CharSet := ⟨fun s t => s ≤ t ∧ ¬ t ≤ s⟩

instance : Max CharSet := ⟨fun s t => s ∪ t⟩

instance : Min CharSet := ⟨fun s t => s ∩ t⟩

instance : Top CharSet := ⟨any⟩

instance : Bot CharSet := ⟨∅⟩

instance : Compl CharSet := ⟨negate⟩

instance : HImp CharSet := ⟨fun s t => t ∪ s.negate⟩

/-- The implication has the characters of the one set and those that are not in the other. -/
theorem chars_himp (s t : CharSet) : (s ⇨ t).chars = s.chars ⇨ t.chars := by
  rw [himp_eq]
  exact Set.ext fun _ => mem_union.trans (or_congr_right mem_negate)

instance : BooleanAlgebra CharSet :=
  chars_injective.booleanAlgebra chars Iff.rfl Iff.rfl
    (fun _ _ => Set.ext fun _ => mem_union) (fun _ _ => Set.ext fun _ => mem_inter)
    (Set.ext fun c => iff_of_true (mem_any c) trivial)
    (Set.ext fun _ => iff_of_false not_mem_empty id)
    (fun _ => Set.ext fun _ => mem_negate) (fun _ _ => Set.ext fun _ => mem_diff) chars_himp

end CharSet

/-- The first interval lies below the second one, and a character that is in neither of them stands
between them. There are no surrogates among the characters, so nothing stands between U+D7FF and
U+E000. -/
def Interval.Apart (r s : Interval) : Prop := ∃ c, r.hi < c ∧ c < s.lo

theorem Interval.Before.apart {r s : Interval} (h : r.Before s) : r.Apart s := by
  have gap : r.hi.ordinal.val + 1 < s.lo.ordinal.val := h
  have bound : r.hi.ordinal.val + 1 < Char.numCodePoints := by
    have := ordinal_lt s.lo
    omega
  refine ⟨Char.ofOrdinal ⟨r.hi.ordinal.val + 1, bound⟩, ?_, ?_⟩
  · rw [Char.lt_iff_ordinal_lt, Char.ordinal_ofOrdinal, Fin.lt_def]
    exact Nat.lt_succ_self _
  · rw [Char.lt_iff_ordinal_lt, Char.ordinal_ofOrdinal, Fin.lt_def]
    exact gap

/-- How a set of characters is put together. -/
inductive Recipe where
  | empty
  | any
  | single (c : Char)
  | range (a b : Char)
  | ranges (rs : List (Char × Char))
  | union (r s : Recipe)
  | negate (r : Recipe)

namespace Recipe

/-- The set that is put together. -/
def set : Recipe → CharSet
  | empty => ∅
  | any => .any
  | single c => .single c
  | range a b => .range a b
  | ranges rs => .ofRanges rs
  | union r s => r.set ∪ s.set
  | negate r => r.set.negate

/-- The character is one between the two given ones or one of them. -/
def Between (a b c : Char) : Prop := a ≤ c ∧ c ≤ b ∨ b ≤ c ∧ c ≤ a

/-- The character is one that the recipe is about. -/
def Denotes : Recipe → Char → Prop
  | empty, _ => False
  | any, _ => True
  | single d, c => c = d
  | range a b, c => Between a b c
  | ranges rs, c => ∃ r ∈ rs, Between r.1 r.2 c
  | union r s, c => r.Denotes c ∨ s.Denotes c
  | negate r, c => ¬ r.Denotes c

theorem mem_set {r : Recipe} {c : Char} : c ∈ r.set ↔ r.Denotes c := by
  induction r with
  | empty => exact iff_of_false CharSet.not_mem_empty id
  | any => exact iff_of_true (CharSet.mem_any c) trivial
  | single d => exact CharSet.mem_single
  | range a b => exact CharSet.mem_range_iff.trans Interval.mem_between_iff
  | ranges rs => simp only [set, CharSet.mem_ofRanges, Interval.mem_between_iff, Denotes, Between]
  | union r s ihr ihs => exact CharSet.mem_union.trans (or_congr ihr ihs)
  | negate r ih => exact CharSet.mem_negate.trans (not_congr ih)

theorem set_eq_iff {r s : Recipe} : r.set = s.set ↔ ∀ c, r.Denotes c ↔ s.Denotes c := by
  constructor
  · intro same c
    rw [← mem_set, same, mem_set]
  · intro same
    exact CharSet.ext_mem fun c => mem_set.trans ((same c).trans mem_set.symm)

theorem single?_set {r : Recipe} {c : Char} :
    r.set.single? = some c ↔ ∀ d, r.Denotes d ↔ d = c :=
  CharSet.single?_eq_some_iff.trans (forall_congr' fun _ => iff_congr mem_set Iff.rfl)

/-- What is put together in any way has the characters that the recipe is about, in a form that
depends on nothing else, so that equations between sets of characters hold of the values. -/
theorem set_canonical (r s t : Recipe) :
    (∀ i ∈ r.set.intervals, i.lo ≤ i.hi) ∧ r.set.intervals.Pairwise Interval.Apart ∧
    (∀ c, r.set.contains c = true ↔ r.Denotes c) ∧
    (r.set = s.set ↔ ∀ c, r.Denotes c ↔ s.Denotes c) ∧
    (∀ c, r.set.single? = some c ↔ ∀ d, r.Denotes d ↔ d = c) ∧
    r.set.negate.negate = r.set ∧
    r.set ∪ s.set = s.set ∪ r.set ∧
    r.set ∪ s.set ∪ t.set = r.set ∪ (s.set ∪ t.set) ∧
    r.set ∪ r.set = r.set ∧
    (∀ c, (r.set ∩ s.set).contains c = true ↔ r.Denotes c ∧ s.Denotes c) ∧
    (r.set ∪ s.set).negate = r.set.negate ∩ s.set.negate ∧
    (r.set ∩ s.set).negate = r.set.negate ∪ s.set.negate := by
  have contains (c : Char) : r.set.contains c = true ↔ r.Denotes c :=
    CharSet.contains_iff.trans mem_set
  have inter (c : Char) : (r.set ∩ s.set).contains c = true ↔ r.Denotes c ∧ s.Denotes c :=
    CharSet.contains_iff.trans (CharSet.mem_inter.trans (and_congr mem_set mem_set))
  exact ⟨fun i _ => i.lo_le_hi, r.set.separated.imp Interval.Before.apart, contains, set_eq_iff,
    fun _ => single?_set, compl_compl r.set, sup_comm r.set s.set, sup_assoc r.set s.set t.set,
    sup_idem r.set, inter, compl_sup, compl_inf⟩

/-- Nothing separates the last character before the surrogates from the first one behind them. -/
example : (ranges [('\uE001', '\uE000'), ('a', '\uD7FF')]).set = .range 'a' '\uE001' := by cbv

end Recipe

end PatternAutomata
