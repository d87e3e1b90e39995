import PatternAutomata.Proofs.Runs
import Mathlib.Data.List.Nodup
import Mathlib.Data.List.Pairwise
import Mathlib.Data.List.Perm.Subperm

/-!
# Automata that only read letters

In such an automaton a state goes on by at most one transition for every letter, and what it admits
is a set of texts. Automata that admit the same texts keep in step (`exists_alike`). If no two
states admit the same texts, there are no more states than in any other such automaton
(`stateCount_le_of_apart`).
-/
namespace PatternAutomata

variable {ν μ : Type}

/-- The condition consumes a character. -/
def Condition.Takes (c : Condition ν) (x : Char) : Prop := ∃ s, c.charSet? = some s ∧ x ∈ s

theorem Condition.Takes.consuming {c : Condition ν} {x : Char} (h : c.Takes x) :
    c.isConsuming = true := by
  obtain ⟨s, hs, -⟩ := h
  exact isConsuming_of_charSet hs

theorem Condition.takes_ofSet {s : CharSet} {x : Char} :
    (Condition.ofSet s : Condition ν).Takes x ↔ x ∈ s := by
  have consuming : (Condition.ofSet s : Condition ν).isConsuming = true := isConsuming_ofSet s
  rw [isConsuming_eq, Option.isSome_iff_exists] at consuming
  obtain ⟨t, ht⟩ := consuming
  have probe : Probe ν := fun _ _ _ => .ok true
  -- The condition takes what it leads past, which is known in both forms.
  have inner : (Condition.ofSet s : Condition ν).Leads probe [x] [] ↔ x ∈ t := by
    rw [leads_iff_of_charSet ht]
    simp
  have outer : (Condition.ofSet s : Condition ν).Leads probe [x] [] ↔ x ∈ s := by
    rw [leads_ofSet]
    simp
  unfold Takes
  rw [ht, ← outer, inner]
  simp

namespace Graph

/-- A state goes on to another one by a character. -/
def Goes (g : Graph ν) (s : Nat) (x : Char) (r : Nat) : Prop :=
  ∃ t ∈ g.outgoing s, t.condition.Takes x ∧ t.target = r

/-- A state goes on to another one by the characters of a text. -/
def Spells (g : Graph ν) : Nat → List Char → Nat → Prop
  | s, [], r => s = r
  | s, x :: w, r => ∃ q, g.Goes s x q ∧ g.Spells q w r

/-- From a state on, a text is consumed to the end and then accepted. -/
def Admits (g : Graph ν) (s : Nat) (w : List Char) : Prop :=
  ∃ r, g.Spells s w r ∧ g.isAccepting r = true

/-- Every transition consumes characters. -/
def Consuming (g : Graph ν) : Prop := ∀ s, ∀ t ∈ g.outgoing s, t.condition.isConsuming = true

/-- Every transition consumes characters, and at most one of a state consumes a given one. -/
structure Lettered (g : Graph ν) : Prop where
  consuming : g.Consuming
  single : ∀ s, (g.outgoing s).Pairwise fun t t' =>
    ∀ x, ¬ (t.condition.Takes x ∧ t'.condition.Takes x)

/-- Every transition consumes some character. -/
def Filled (g : Graph ν) : Prop := ∀ s, ∀ t ∈ g.outgoing s, ∃ x, t.condition.Takes x

/-- The transitions share no character and no target. -/
def Parted (t u : Transition ν) : Prop :=
  t.target ≠ u.target ∧ ∀ x, ¬ (t.condition.Takes x ∧ u.condition.Takes x)

/-- The state sorts the characters: each of its transitions consumes some, no two of them the same
one, and no two of them lead to the same state. -/
structure Sorts (g : Graph ν) (s : Nat) : Prop where
  takes : ∀ t ∈ g.outgoing s, ∃ x, t.condition.Takes x
  parted : (g.outgoing s).Pairwise Parted

/-- Some text is admitted from every state. -/
def Productive (g : Graph ν) : Prop := ∀ s, g.IsLive s → ∃ w, g.Admits s w

variable {g : Graph ν} {h : Graph μ} {s r q i j : Nat} {x : Char} {v w : List Char}

theorem admits_nil : g.Admits s [] ↔ g.isAccepting s = true := by
  unfold Admits
  simp only [Spells, exists_eq_left']

theorem admits_cons : g.Admits s (x :: w) ↔ ∃ r, g.Goes s x r ∧ g.Admits r w := by
  unfold Admits
  simp only [Spells]
  constructor
  · rintro ⟨r, ⟨q, goes, spells⟩, accepting⟩
    exact ⟨q, goes, r, spells, accepting⟩
  · rintro ⟨q, goes, r, spells, accepting⟩
    exact ⟨r, ⟨q, goes, spells⟩, accepting⟩

theorem spells_append : g.Spells s (v ++ w) r ↔ ∃ q, g.Spells s v q ∧ g.Spells q w r := by
  induction v generalizing s with
  | nil => simp [Spells]
  | cons x v ih =>
    simp only [List.cons_append, Spells, ih]
    constructor
    · rintro ⟨p, goes, q, first, second⟩
      exact ⟨q, ⟨p, goes, first⟩, second⟩
    · rintro ⟨q, ⟨p, goes, first⟩, second⟩
      exact ⟨p, goes, q, first, second⟩

theorem spells_concat : g.Spells s (v ++ [x]) r ↔ ∃ q, g.Spells s v q ∧ g.Goes q x r := by
  simp only [spells_append, Spells, exists_eq_right]

theorem Goes.isLive (hg : g.Intact) (goes : g.Goes s x r) : g.IsLive r := by
  obtain ⟨t, ht, -, rfl⟩ := goes
  exact hg.isLive_target ht

theorem Goes.isLive_source (hg : g.Intact) (goes : g.Goes s x r) : g.IsLive s := by
  obtain ⟨t, ht, -, -⟩ := goes
  exact hg.isLive_source ht

theorem Spells.isLive (hg : g.Intact) (live : g.IsLive s) (spells : g.Spells s w r) :
    g.IsLive r := by
  induction w generalizing s with
  | nil => exact spells ▸ live
  | cons x w ih =>
    obtain ⟨q, goes, spells⟩ := spells
    exact ih (goes.isLive hg) spells

/-- With consuming transitions only, a move goes on by one character. -/
theorem moves_iff_goes (consuming : g.Consuming) (probe : Probe ν) {u : List Char} {c : Config} :
    g.Moves probe (s, u) c ↔ ∃ x, u = x :: c.2 ∧ g.Goes s x c.1 := by
  constructor
  · rintro ⟨t, ht, target, leads⟩
    cases hset : t.condition.charSet? with
    | none =>
      have letter := consuming s t ht
      rw [Condition.isConsuming_eq, hset] at letter
      cases letter
    | some set =>
      obtain ⟨x, hx, split⟩ := (Condition.leads_iff_of_charSet hset).mp leads
      exact ⟨x, split, t, ht, ⟨set, hset, hx⟩, target⟩
  · rintro ⟨x, split, t, ht, ⟨set, hset, hx⟩, target⟩
    exact ⟨t, ht, target, (Condition.leads_iff_of_charSet hset).mpr ⟨x, hx, split⟩⟩

theorem goes_iff_moves (consuming : g.Consuming) (probe : Probe ν) :
    g.Goes s x r ↔ g.Moves probe (s, [x]) (r, []) := by
  rw [moves_iff_goes consuming]
  simp

/-- With consuming transitions only, a run spells what it consumes. -/
theorem runs_iff_spells (consuming : g.Consuming) (probe : Probe ν) :
    g.Runs probe (s, w) (r, []) ↔ g.Spells s w r := by
  constructor
  · intro run
    generalize ha : (s, w) = a at run
    generalize hb : (r, ([] : List Char)) = b at run
    induction run using Relation.ReflTransGen.head_induction_on generalizing s w with
    | refl =>
      cases ha.trans hb.symm
      rfl
    | head move _ ih =>
      subst ha
      obtain ⟨x, rfl, goes⟩ := (moves_iff_goes consuming probe).mp move
      exact ⟨_, goes, ih rfl⟩
  · intro spells
    induction w generalizing s with
    | nil => exact spells ▸ .refl
    | cons x w ih =>
      obtain ⟨q, goes, spells⟩ := spells
      exact (ih spells).head ((moves_iff_goes consuming probe).mpr ⟨x, rfl, goes⟩)

theorem ends_iff_admits (consuming : g.Consuming) (probe : Probe ν) :
    g.Ends probe s w [] ↔ g.Admits s w := by
  unfold Ends Admits
  simp only [runs_iff_spells consuming]

/-- With consuming transitions only, all of a text is accepted if it is admitted. -/
theorem accepts_length_iff (consuming : g.Consuming) {probe : Probe ν}
    (initial : g.initial = some i) : g.Accepts probe w w.length ↔ g.Admits i w := by
  rw [accepts_iff_ends, ← ends_iff_admits consuming probe]
  constructor
  · rintro ⟨j, v, initial', ends, len⟩
    cases initial.symm.trans initial'
    have none : v = [] := List.eq_nil_of_length_eq_zero (by omega)
    exact none ▸ ends
  · intro ends
    exact ⟨i, [], initial, ends, rfl⟩

/-- A character leads to one state if at most one transition takes it. -/
theorem Goes.unique (single : (g.outgoing s).Pairwise fun t t' =>
      ∀ x, ¬ (t.condition.Takes x ∧ t'.condition.Takes x))
    (first : g.Goes s x r) (second : g.Goes s x q) : r = q := by
  obtain ⟨t, ht, takes, rfl⟩ := first
  obtain ⟨t', ht', takes', rfl⟩ := second
  by_cases same : t = t'
  · rw [same]
  · have : Std.Symm fun t t' : Transition ν =>
        ∀ x, ¬ (t.condition.Takes x ∧ t'.condition.Takes x) := ⟨fun _ _ h y both => h y both.symm⟩
    exact absurd ⟨takes, takes'⟩ (single.forall ht ht' same x)

namespace Sorts

theorem of_nil (none : g.outgoing s = []) : g.Sorts s := ⟨by simp [none], none ▸ .nil⟩

theorem consuming (sorts : g.Sorts s) :
    ∀ t ∈ g.outgoing s, t.condition.isConsuming = true := by
  intro t ht
  obtain ⟨x, takes⟩ := sorts.takes t ht
  exact takes.consuming

theorem single (sorts : g.Sorts s) : (g.outgoing s).Pairwise fun t t' =>
    ∀ x, ¬ (t.condition.Takes x ∧ t'.condition.Takes x) := sorts.parted.imp And.right

end Sorts

namespace Lettered

theorem goes_unique (hg : g.Lettered) (first : g.Goes s x r) (second : g.Goes s x q) : r = q :=
  first.unique (hg.single s) second

theorem spells_unique (hg : g.Lettered) (first : g.Spells s w r) (second : g.Spells s w q) :
    r = q := by
  induction w generalizing s with
  | nil => exact first.symm.trans second
  | cons x w ih =>
    obtain ⟨p, goes, first⟩ := first
    obtain ⟨p', goes', second⟩ := second
    cases hg.goes_unique goes goes'
    exact ih first second

/-- What a state admits after a character, the next state admits. -/
theorem admits_of_goes (hg : g.Lettered) (goes : g.Goes s x r) (w : List Char) :
    g.Admits s (x :: w) ↔ g.Admits r w := by
  rw [admits_cons]
  constructor
  · rintro ⟨q, goes', admits⟩
    exact hg.goes_unique goes' goes ▸ admits
  · intro admits
    exact ⟨r, goes, admits⟩

end Lettered

/-- Two states, in automata of their own, admit the same texts. -/
def Alike (g : Graph ν) (h : Graph μ) (s r : Nat) : Prop := ∀ w, g.Admits s w ↔ h.Admits r w

theorem Alike.symm (alike : Alike g h s r) : Alike h g r s := fun w => (alike w).symm

theorem Alike.trans {κ : Type} {k : Graph κ} (first : Alike g h s r) (second : Alike h k r q) :
    Alike g k s q := fun w => (first w).trans (second w)

/-- From states that admit the same texts, a character leads to such states again. -/
theorem Alike.goes (alike : Alike g h s r) (hg : g.Lettered) (hh : h.Lettered) (intact : g.Intact)
    (productive : g.Productive) (goes : g.Goes s x q) : ∃ p, h.Goes r x p ∧ Alike g h q p := by
  obtain ⟨v, admits⟩ := productive q (goes.isLive intact)
  have before := (alike (x :: v)).mp ((hg.admits_of_goes goes v).mpr admits)
  obtain ⟨p, goes', -⟩ := admits_cons.mp before
  refine ⟨p, goes', ?_⟩
  intro u
  rw [← hg.admits_of_goes goes, ← hh.admits_of_goes goes', alike]

/-- From states that admit the same texts, a text leads to such states again. -/
theorem exists_alike (hg : g.Lettered) (hh : h.Lettered) (intact : g.Intact)
    (productive : g.Productive) (start : Alike g h i j) (spells : g.Spells i w s) :
    ∃ r, h.Spells j w r ∧ Alike g h s r := by
  induction w generalizing i j with
  | nil => exact ⟨j, rfl, spells ▸ start⟩
  | cons x w ih =>
    obtain ⟨q, goes, spells⟩ := spells
    obtain ⟨p, goes', alike⟩ := start.goes hg hh intact productive goes
    obtain ⟨r, spells', alike'⟩ := ih alike spells
    exact ⟨r, ⟨p, goes', spells'⟩, alike'⟩

/-- States that admit different texts need as many states in any other automaton. -/
theorem stateCount_le_of_apart (hg : g.Lettered) (hh : h.Lettered) (intact : g.Intact)
    (intact' : h.Intact) (productive : g.Productive) (start : Alike g h i j) (live : h.IsLive j)
    (apart : ∀ s r, g.IsLive s → g.IsLive r → Alike g g s r → s = r)
    (reached : ∀ s, g.IsLive s → ∃ w, g.Spells i w s) : g.stateCount ≤ h.stateCount := by
  have image (s : Nat) : ∃ r, g.IsLive s → h.IsLive r ∧ Alike g h s r := by
    by_cases hs : g.IsLive s
    · obtain ⟨w, spells⟩ := reached s hs
      obtain ⟨r, spells', alike⟩ := exists_alike hg hh intact productive start spells
      exact ⟨r, fun _ => ⟨spells'.isLive intact' live, alike⟩⟩
    · exact ⟨0, fun hs' => absurd hs' hs⟩
  choose f hf using image
  have once : (g.liveStates.map f).Nodup := by
    apply List.Nodup.map_on _ (List.nodup_range.filter _)
    intro s hs r hr same
    have hs' := mem_liveStates.mp hs
    have hr' := mem_liveStates.mp hr
    apply apart s r hs' hr'
    have alike := (hf r hr').2
    rw [← same] at alike
    exact (hf s hs').2.trans alike.symm
  have sub : g.liveStates.map f ⊆ h.liveStates := by
    intro r hr
    obtain ⟨s, hs, rfl⟩ := List.mem_map.mp hr
    exact mem_liveStates.mpr (hf s (mem_liveStates.mp hs)).1
  have le := (once.subperm sub).length_le
  rwa [List.length_map] at le

end Graph

end PatternAutomata
