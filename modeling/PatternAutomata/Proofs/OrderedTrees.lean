import PatternAutomata.Proofs.SoundNormals

/-!
# The bounds in what is read

No pattern is read in which a repetition has its bounds the wrong way round. One part of a pattern
keeps the bounds of all that has been read in order (`yields_take`), and so does the rest of it
(`ordered_of_run`). With its bounds in order a tree has a sound normal pattern
(`sound_of_normal`).
-/
namespace PatternAutomata.Pattern

namespace Scanner

variable {α β : Type} {P : α → Prop} {Q : β → Prop}

/-- Whatever is read has a property. -/
def Yields (s : Scanner α) (P : α → Prop) : Prop :=
  ∀ cs a rest, s.run cs = .ok (a, rest) → P a

theorem yields_pure {a : α} (h : P a) : (pure a : Scanner α).Yields P := by
  rintro cs b rest ⟨⟩
  exact h

theorem yields_bind {s : Scanner α} {f : α → Scanner β} (h : s.Yields P)
    (k : ∀ a, P a → (f a).Yields Q) : (s >>= f).Yields Q := by
  intro cs b rest ok
  simp only [bind] at ok
  split at ok
  · cases ok
  · next a left first => exact k a (h cs a left first) left b rest ok

theorem yields_any (s : Scanner α) : s.Yields fun _ => True := fun _ _ _ _ => trivial

theorem yields_then {s : Scanner α} {f : α → Scanner β} (k : ∀ a, (f a).Yields Q) :
    (s >>= f).Yields Q :=
  yields_bind (yields_any s) fun a _ => k a

theorem yields_fail {e : ReadError} : (fail e : Scanner α).Yields P := by
  rintro cs a rest ⟨⟩

theorem yields_ofExcept {v : Except ReadError α} (h : ∀ a, v = .ok a → P a) :
    (ofExcept v).Yields P := by
  cases v with
  | ok a => exact yields_pure (h a rfl)
  | error e => exact yields_fail

theorem yields_ite {c : Prop} [Decidable c] {s t : Scanner α} (h : c → s.Yields P)
    (k : ¬ c → t.Yields P) : (if c then s else t).Yields P := by
  split
  · exact h ‹_›
  · exact k ‹_›

end Scanner

namespace Tree

mutual

/-- The bounds of all repetitions are in order. -/
def Ordered : Tree → Prop
  | empty | literal _ | dot | assertion _ | set _ | flags _ => True
  | repetition body min max _ => (∀ m ∈ max, min ≤ m) ∧ Ordered body
  | group _ body => Ordered body
  | alternatives branches => AllOrdered branches
  | sequence items => AllOrdered items

def AllOrdered : List Tree → Prop
  | [] => True
  | t :: ts => Ordered t ∧ AllOrdered ts

end

theorem allOrdered_iff {ts : List Tree} : AllOrdered ts ↔ ∀ t ∈ ts, Ordered t := by
  induction ts with
  | nil => simp [AllOrdered]
  | cons t ts ih => simp [AllOrdered, ih]

theorem ordered_ofItems {ts : List Tree} (h : ∀ t ∈ ts, Ordered t) : Ordered (ofItems ts) := by
  unfold ofItems
  split
  · exact trivial
  · exact h _ (List.mem_singleton_self _)
  · exact allOrdered_iff.mpr h

theorem ordered_ofBranches {ts : List Tree} (h : ∀ t ∈ ts, Ordered t) :
    Ordered (ofBranches ts) := by
  unfold ofBranches
  split
  · exact h _ (List.mem_singleton_self _)
  · exact allOrdered_iff.mpr h

end Tree

open Scanner

theorem yields_escape (spaced : Bool) : (escape spaced).Yields Tree.Ordered := by
  have literal (s : Scanner Literal) :
      (do return .literal (← s) : Scanner Tree).Yields Tree.Ordered :=
    yields_then fun _ => yields_pure trivial
  have property (s : Scanner Property) :
      (do return .set (.property (← s)) : Scanner Tree).Yields Tree.Ordered :=
    yields_then fun _ => yields_pure trivial
  refine yields_then fun c => yields_ite (fun _ => yields_fail) fun _ =>
    yields_ite (fun _ => yields_pure trivial) fun _ => ?_
  split
  · exact literal _
  · exact literal _
  · exact literal _
  · exact property _
  · exact property _
  · exact yields_then fun _ => yields_pure trivial
  · split
    · next part known =>
      refine yields_pure ?_
      unfold plainEscape? at known
      split at known <;> cases known <;> exact trivial
    · exact yields_fail

/-- The bounds are in order. -/
def Bounds.Ordered (b : Bounds) : Prop := ∀ m ∈ b.max, b.min ≤ m

theorem yields_countedBounds (spaced : Bool) : (countedBounds spaced).Yields Bounds.Ordered := by
  refine yields_then fun _ => yields_then fun _ => yields_then fun (min, max) =>
    yields_then fun closed => yields_ite (fun _ => yields_fail) fun _ =>
    yields_then fun _ => yields_then fun _ => yields_ite (fun _ => yields_fail) fun inOrder => ?_
  refine yields_pure fun m hm => ?_
  cases hm
  simpa using inOrder

theorem yields_signBounds {min : Nat} {max : Option Nat} (h : ∀ m ∈ max, min ≤ m) :
    (signBounds min max).Yields Bounds.Ordered :=
  yields_then fun _ => yields_pure h

/-- The bounds in all that has been read of some branches are in order. -/
def Level.Ordered (l : Level) : Prop :=
  (∀ t ∈ l.branches, t.Ordered) ∧ ∀ t ∈ l.items, t.Ordered

namespace Level.Ordered

variable {l : Level} {t : Tree}

theorem none : Level.none.Ordered := ⟨by simp [Level.none], by simp [Level.none]⟩

theorem push (h : l.Ordered) (ht : t.Ordered) : (l.push t).Ordered :=
  ⟨h.1, List.forall_mem_cons.mpr ⟨ht, h.2⟩⟩

theorem branch (h : l.Ordered) : l.branch.Ordered :=
  Tree.ordered_ofItems fun t ht => h.2 t (List.mem_reverse.mp ht)

theorem split (h : l.Ordered) : l.split.Ordered :=
  ⟨List.forall_mem_cons.mpr ⟨h.branch, h.1⟩, by simp [Level.split]⟩

theorem tree (h : l.Ordered) : l.tree.Ordered :=
  Tree.ordered_ofBranches fun t ht =>
    List.forall_mem_cons.mpr ⟨h.branch, h.1⟩ t (List.mem_reverse.mp ht)

end Level.Ordered

namespace Reader

/-- The bounds in all that has been read are in order. -/
structure Ordered (r : Reader) : Prop where
  level : r.level.Ordered
  outer : ∀ g ∈ r.groups, g.outer.Ordered

variable {r : Reader}

theorem Ordered.push (h : r.Ordered) {t : Tree} (ht : t.Ordered) : (r.push t).Ordered :=
  ⟨h.level.push ht, h.outer⟩

theorem Ordered.enter (h : r.Ordered) (o : Opening) : (r.enter o).Ordered := by
  have outer : ∀ g ∈ r.groups, g.outer.Ordered := h.outer
  cases o with
  | flags changes => exact ⟨h.level.push trivial, outer⟩
  | group kind =>
    cases kind with
    | capture index name => exact ⟨.none, List.forall_mem_cons.mpr ⟨h.level, outer⟩⟩
    | plain changes => exact ⟨.none, List.forall_mem_cons.mpr ⟨h.level, outer⟩⟩

theorem Ordered.leave (h : r.Ordered) {r' : Reader} (ok : r.leave = .ok r') : r'.Ordered := by
  unfold Reader.leave at ok
  split at ok
  · cases ok
  · next g groups open_ =>
    cases ok
    have outer := List.forall_mem_cons.mp (open_ ▸ h.outer)
    exact ⟨outer.1.push h.level.tree, outer.2⟩

theorem yields_repeatLast (h : r.Ordered) {s : Scanner Bounds} (hs : s.Yields Bounds.Ordered) :
    (r.repeatLast s).Yields Ordered := by
  unfold repeatLast
  split
  · exact yields_fail
  · exact yields_fail
  · next item before _ items =>
    refine yields_bind hs fun b hb => yields_pure ⟨⟨h.level.1, ?_⟩, h.outer⟩
    have parts := List.forall_mem_cons.mp (items ▸ h.level.2)
    exact List.forall_mem_cons.mpr ⟨⟨hb, parts.1⟩, parts.2⟩

theorem Ordered.brackets (h : r.Ordered) (bs : List OpenBracket) :
    { r with brackets := bs }.Ordered := ⟨h.level, h.outer⟩

theorem yields_openBracket (h : r.Ordered) : r.openBracket.Yields Ordered :=
  yields_then fun _ => yields_pure (h.brackets _)

theorem yields_takeOutside (h : r.Ordered) (c : Char) : (r.takeOutside c).Yields Ordered := by
  unfold takeOutside
  split
  · exact yields_then fun o => yields_pure (h.enter o)
  · exact yields_ofExcept fun r' ok => h.leave ok
  · exact yields_pure ⟨h.level.split, h.outer⟩
  · exact yields_openBracket h
  · exact yields_repeatLast h (yields_signBounds (by simp))
  · exact yields_repeatLast h (yields_signBounds (by simp))
  · exact yields_repeatLast h (yields_signBounds (by simp))
  · exact yields_repeatLast h (yields_countedBounds _)
  · exact yields_bind (yields_escape _) fun t ht => yields_pure (h.push ht)
  · exact yields_pure (h.push trivial)
  · exact yields_pure (h.push trivial)
  · exact yields_pure (h.push trivial)
  · exact yields_pure (h.push trivial)

theorem Ordered.closeBracket (h : r.Ordered) (b : OpenBracket) (outer : List OpenBracket) :
    (r.closeBracket b outer).Ordered := by
  unfold Reader.closeBracket
  split
  · exact (h.push (t := .set _) trivial).brackets _
  · exact h.brackets _

theorem yields_takeInside (h : r.Ordered) (b : OpenBracket) (outer : List OpenBracket) (c : Char) :
    (r.takeInside b outer c).Yields Ordered := by
  refine yields_ite (fun _ => yields_then fun item => ?_) fun _ =>
    yields_ite (fun _ => yields_pure (h.closeBracket b outer)) fun _ => yields_then fun op => ?_
  · cases item with
    | some item => exact yields_pure (h.brackets _)
    | none => exact yields_openBracket h
  · cases op with
    | some op => exact yields_pure (h.brackets _)
    | none => exact yields_then fun item => yields_pure (h.brackets _)

/-- A part of a pattern keeps all bounds in order. -/
theorem yields_take (h : r.Ordered) (c : Char) : (r.take c).Yields Ordered := by
  unfold take
  split
  · exact yields_takeOutside h c
  · exact yields_takeInside h _ _ c

theorem ordered_of_run {cs : List Char} {t : Tree} (h : r.Ordered) (ok : r.run cs = .ok t) :
    t.Ordered := by
  fun_induction run r cs with
  | case1 r cs none =>
    unfold finish at ok
    split at ok
    · cases ok
    · split at ok
      · cases ok
      · cases ok
        exact h.level.tree
  | case2 => cases ok
  | case3 r cs c rest next r' left taken shorter ih =>
    exact ih (yields_take h c _ r' left taken) ok

end Reader

/-- The bounds in every pattern that is read are in order. -/
theorem ordered_of_ofText {text : List Char} {t : Tree} (ok : Tree.ofText text = .ok t) :
    t.Ordered := by
  obtain ⟨t', read, ok⟩ := bind_eq_ok.mp ok
  split at ok
  · cases ok
    exact Reader.ordered_of_run (r := .start) ⟨.none, by simp [Reader.start]⟩ read
  · cases ok

open PatternAutomata.Pattern.Normal

namespace Tree

mutual

/-- The normal pattern of a tree with its bounds in order is sound. -/
theorem sound_of_normal : {t : Tree} → {f f' : Flags} → {p : Normal} → t.Ordered →
    t.normal f = .ok (p, f') → Sound True p
  | empty, _, _, _, _, ok => by
    cases ok
    exact trivial
  | literal l, _, _, _, _, ok => by
    obtain ⟨q, made, ⟨⟩⟩ := bind_eq_ok.mp ok
    obtain ⟨c, -, ⟨⟩⟩ := bind_eq_ok.mp made
    exact sound_ofRanges _ _
  | dot, _, _, _, _, ok => by
    obtain ⟨r, -, ⟨⟩⟩ := bind_eq_ok.mp ok
    exact sound_ofRanges _ _
  | assertion a, _, _, _, _, ok => by
    cases ok
    exact trivial
  | set c, _, _, _, _, ok => by
    obtain ⟨r, -, ⟨⟩⟩ := bind_eq_ok.mp ok
    exact sound_ofRanges _ _
  | flags changes, _, _, _, _, ok => by
    cases ok
    exact trivial
  | repetition body min max greedy, _, _, _, ⟨ordered, inside⟩, ok => by
    obtain ⟨⟨q, f⟩, made, ⟨⟩⟩ := bind_eq_ok.mp ok
    exact sound_repeated (sound_of_normal inside made) ordered _
  | group (.plain changes) body, _, _, _, inside, ok => by
    obtain ⟨⟨q, f⟩, made, ⟨⟩⟩ := bind_eq_ok.mp ok
    exact sound_of_normal (t := body) inside made
  | group (.capture index name) body, _, _, _, inside, ok => by
    obtain ⟨⟨q, f⟩, made, ⟨⟩⟩ := bind_eq_ok.mp ok
    have sound : Sound True q := sound_of_normal (t := body) inside made
    exact sound
  | alternatives branches, _, _, _, inside, ok => by
    obtain ⟨⟨qs, f⟩, made, ⟨⟩⟩ := bind_eq_ok.mp ok
    exact sound_anyOf (sound_of_normalAll inside made)
  | sequence items, _, _, _, inside, ok => by
    obtain ⟨⟨qs, f⟩, made, ⟨⟩⟩ := bind_eq_ok.mp ok
    exact sound_concat (sound_of_normalAll inside made)

theorem sound_of_normalAll : {ts : List Tree} → {f f' : Flags} → {ps : List Normal} →
    AllOrdered ts → normalAll f ts = .ok (ps, f') → ∀ p ∈ ps, Sound True p
  | [], _, _, _, _, ok => by
    cases ok
    simp
  | t :: ts, _, _, _, ⟨first, others⟩, ok => by
    obtain ⟨⟨q, f⟩, made, ok⟩ := bind_eq_ok.mp ok
    obtain ⟨⟨qs, f'⟩, rest, ⟨⟩⟩ := bind_eq_ok.mp ok
    exact List.forall_mem_cons.mpr ⟨sound_of_normal first made, sound_of_normalAll others rest⟩

end

end Tree

/-- The normal pattern of every text is sound. -/
theorem sound_of_ofText {f : Flags} {text : String} {p : Normal}
    (ok : Normal.ofText f text = .ok p) : p.Sound True := by
  obtain ⟨t, read, ok⟩ := bind_eq_ok.mp ok
  obtain ⟨⟨q, f'⟩, made, ⟨⟩⟩ := bind_eq_ok.mp ok
  exact Tree.sound_of_normal (ordered_of_ofText read) made

end PatternAutomata.Pattern
