import Mathlib.Data.List.Lex
import PatternAutomata.Construction.Compiled

/-!
# The first malformed part of an expression

A part of an expression has an address: the numbers of the children on the way to it. Parts come in
the order of their addresses, each before its own parts. The fault of an expression is that of the
first part that is malformed in itself (`fault?_eq_some_iff`).
-/
namespace PatternAutomata.Expr

/-- The part at an address. -/
def at? (e : Expr) : List Nat → Option Expr
  | [] => some e
  | i :: rest =>
    match e.children[i]? with
    | some c => c.at? rest
    | none => none

/-- An expression is malformed in itself, and an error tells how. -/
inductive Offends : Expr → Error → Prop
  | noItems : Offends (sequence []) .emptySequence
  | noBranches : Offends (alternatives []) .emptyAlternatives
  | never (body : Expr) (min : Nat) :
    Offends (repetition body min (some 0)) (.invalidBounds min (some 0))
  | crossed (body : Expr) {min max : Nat} (less : max < min) :
    Offends (repetition body min (some max)) (.invalidBounds min (some max))

/-- The error of the first of all parts that are malformed in themselves. -/
def FirstOffence (e : Expr) (err : Error) : Prop :=
  ∃ address part, e.at? address = some part ∧ part.Offends err ∧
    ∀ earlier < address, ∀ other, e.at? earlier = some other → ∀ err', ¬ other.Offends err'

theorem ownFault?_eq_some_iff {e : Expr} {err : Error} :
    e.ownFault? = some err ↔ e.Offends err := by
  constructor
  · intro h
    unfold ownFault? at h
    split at h
    · cases h
      exact .noItems
    · cases h
      exact .noBranches
    · rename_i body min max
      cases max with
      | none => cases h
      | some max =>
        simp only [Option.some.injEq, Option.any_some, Option.ite_none_right_eq_some,
          Bool.or_eq_true, decide_eq_true_eq] at h
        obtain ⟨rfl | less, rfl⟩ := h
        · exact .never body min
        · exact .crossed body less
    · cases h
  · intro h
    cases h with
    | noItems | noBranches => rfl
    | never => simp [ownFault?]
    | crossed _ less => simp [ownFault?, less]

theorem Offends.unique {e : Expr} {err err' : Error} (h : e.Offends err) (k : e.Offends err') :
    err = err' := by
  rw [← ownFault?_eq_some_iff] at h k
  exact Option.some.inj (h.symm.trans k)

theorem walkAll_eq (es : List Expr) : walkAll es = es.flatMap walk := by
  induction es with
  | nil => rfl
  | cons e es ih => rw [walkAll, ih, List.flatMap_cons]

theorem walk_eq (e : Expr) : e.walk = e :: e.children.flatMap walk := by
  cases e <;> simp [walk, walkAll_eq, children]

theorem findSome?_cons_eq_or {α β : Type} (f : α → Option β) (a : α) (l : List α) :
    (a :: l).findSome? f = (f a).or (l.findSome? f) := by
  rw [List.findSome?_cons]
  cases f a <;> rfl

/-- The fault of an expression is its own, if it has one, or else that of the first child with a
fault. -/
theorem fault?_eq (e : Expr) : e.fault? = e.ownFault?.or (e.children.findSome? fault?) := by
  unfold fault?
  rw [walk_eq, findSome?_cons_eq_or]
  congr 1
  induction e.children with
  | nil => rfl
  | cons c rest ih => rw [List.flatMap_cons, List.findSome?_append, ih, findSome?_cons_eq_or]

theorem fault?_of_own {e : Expr} (own : e.ownFault? = none) :
    e.fault? = e.children.findSome? fault? := by
  rw [fault?_eq, own, Option.none_or]

theorem sizeOf_lt_of_mem_children {e c : Expr} (h : c ∈ e.children) : sizeOf c < sizeOf e := by
  cases e with
  | charClass | literal => cases h
  | sequence items | alternatives items =>
    have := List.sizeOf_lt_of_mem (show c ∈ items from h)
    simp only [sequence.sizeOf_spec, alternatives.sizeOf_spec]
    omega
  | repetition body | lookahead body =>
    cases List.mem_singleton.mp h
    simp only [repetition.sizeOf_spec, lookahead.sizeOf_spec]
    omega

theorem at?_cons {e c : Expr} {i : Nat} (h : e.children[i]? = some c) (rest : List Nat) :
    e.at? (i :: rest) = c.at? rest := by
  rw [at?, h]

theorem mem_children_of_at? {e part : Expr} {i : Nat} {rest : List Nat}
    (h : e.at? (i :: rest) = some part) :
    ∃ c, e.children[i]? = some c ∧ c.at? rest = some part := by
  rw [at?] at h
  split at h
  · exact ⟨_, ‹_›, h⟩
  · cases h

/-- No part is malformed, if there is no fault. -/
theorem not_offends_of_fault? {e part : Expr} {address : List Nat} (sound : e.fault? = none)
    (h : e.at? address = some part) (err : Error) : ¬ part.Offends err := by
  induction address generalizing e with
  | nil =>
    cases h
    rw [fault?_eq, Option.or_eq_none_iff] at sound
    rw [← ownFault?_eq_some_iff, sound.1]
    simp
  | cons i rest ih =>
    obtain ⟨c, child, h⟩ := mem_children_of_at? h
    rw [fault?_eq, Option.or_eq_none_iff, List.findSome?_eq_none_iff] at sound
    exact ih (sound.2 c (List.mem_of_getElem? child)) h

theorem firstOffence_of_fault? (e : Expr) {err : Error} (h : e.fault? = some err) :
    e.FirstOffence err := by
  rw [fault?_eq, Option.or_eq_some_iff] at h
  rcases h with own | ⟨own, inner⟩
  · refine ⟨[], e, rfl, ownFault?_eq_some_iff.mp own, ?_⟩
    intro earlier before
    exact absurd before (List.not_lt_nil _)
  · obtain ⟨before, c, after, split, fault, sound⟩ := List.findSome?_eq_some_iff.mp inner
    have child : e.children[before.length]? = some c := by simp [split]
    obtain ⟨address, part, found, offends, first⟩ := firstOffence_of_fault? c fault
    refine ⟨before.length :: address, part, by rw [at?_cons child, found], offends, ?_⟩
    intro earlier less other found' err'
    cases earlier with
    | nil =>
      cases found'
      rw [← ownFault?_eq_some_iff, own]
      simp
    | cons i rest =>
      obtain ⟨d, child', found'⟩ := mem_children_of_at? found'
      rcases List.cons_lt_cons_iff.mp less with less | ⟨rfl, less'⟩
      · -- a child before the first one with a fault
        have mem : d ∈ before := by
          rw [split, List.getElem?_append_left less] at child'
          exact List.mem_of_getElem? child'
        exact not_offends_of_fault? (sound d mem) found' err'
      · cases child.symm.trans child'
        exact first rest less' other found' err'
termination_by sizeOf e
decreasing_by
  exact sizeOf_lt_of_mem_children (by rw [split]; simp)

theorem FirstOffence.unique {e : Expr} {err err' : Error} (h : e.FirstOffence err)
    (k : e.FirstOffence err') : err = err' := by
  obtain ⟨address, part, found, offends, first⟩ := h
  obtain ⟨address', part', found', offends', first'⟩ := k
  rcases lt_trichotomy address address' with less | rfl | less
  · exact absurd offends (first' address less part found err)
  · cases found.symm.trans found'
    exact offends.unique offends'
  · exact absurd offends' (first address' less part' found' err')

/-- The fault of an expression is the error of the first part that is malformed. -/
theorem fault?_eq_some_iff {e : Expr} {err : Error} :
    e.fault? = some err ↔ e.FirstOffence err := by
  constructor
  · exact firstOffence_of_fault? e
  · intro h
    cases fault : e.fault? with
    | none =>
      obtain ⟨address, part, found, offends, -⟩ := h
      exact absurd offends (not_offends_of_fault? fault found err)
    | some err' => rw [h.unique (firstOffence_of_fault? e fault)]

end PatternAutomata.Expr
