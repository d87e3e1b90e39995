import PatternAutomata.Pattern.Standard
import PatternAutomata.Proofs.Lowering

/-!
# Sound normal patterns

In a sound normal pattern the bounds of repetitions are in order, and sequences and choices have
several parts. The functions that put normal patterns together keep them sound, and what is given
back of a sound pattern is as a parser promises (`proper_toHir`).
-/
namespace PatternAutomata.Pattern

theorem mapM_cons_eq_some {α β : Type} {f : α → Option β} {a : α} {as : List α} {bs : List β} :
    (a :: as).mapM f = some bs ↔
      ∃ b, f a = some b ∧ ∃ rest, as.mapM f = some rest ∧ b :: rest = bs := by
  simp [List.mapM_cons, Option.bind_eq_some_iff]

namespace ByteRange

/-- The bytes of an interval are those of its ends. -/
theorem of_ofInterval? {i : Interval} {r : ByteRange} (h : ofInterval? i = some r) :
    r.hi ≤ 0x7F ∧ ∀ x : Char, r.lo.toNat ≤ x.toNat ∧ x.toNat ≤ r.hi.toNat ↔ x ∈ i := by
  have order : i.lo.toNat ≤ i.hi.toNat := i.lo_le_hi
  have byte (c : Char) : c.toUInt8.toNat = c.toNat % 256 := UInt32.toNat_toUInt8 c.val
  simp only [ofInterval?, Option.dite_none_right_eq_some, Option.some.injEq] at h
  obtain ⟨⟨small, -⟩, rfl⟩ := h
  have lo : i.lo.toUInt8.toNat = i.lo.toNat := (byte _).trans (Nat.mod_eq_of_lt (by omega))
  have hi : i.hi.toUInt8.toNat = i.hi.toNat := (byte _).trans (Nat.mod_eq_of_lt (by omega))
  refine ⟨?_, ?_⟩
  · rw [UInt8.le_iff_toNat_le, hi]
    exact Nat.le_of_lt_succ small
  · intro x
    rw [lo, hi]
    rfl

/-- The bytes of a row are those of its intervals. -/
theorem of_mapM {row : List Interval} {ranges : List ByteRange}
    (h : row.mapM ofInterval? = some ranges) :
    (∀ r ∈ ranges, r.hi ≤ 0x7F) ∧
      ∀ x : Char, (∃ r ∈ ranges, r.lo.toNat ≤ x.toNat ∧ x.toNat ≤ r.hi.toNat) ↔
        ∃ i ∈ row, x ∈ i := by
  induction row generalizing ranges with
  | nil =>
    cases h
    simp
  | cons i row ih =>
    obtain ⟨r, made, ranges, others, rfl⟩ := mapM_cons_eq_some.mp h
    obtain ⟨small, same⟩ := of_ofInterval? made
    obtain ⟨ascii, members⟩ := ih others
    refine ⟨List.forall_mem_cons.mpr ⟨small, ascii⟩, ?_⟩
    intro x
    rw [List.exists_mem_cons_iff, List.exists_mem_cons_iff, same, members]

end ByteRange

/-- One part of what a parser gives back is as it is promised. Places are asked for only if
`looks`. -/
def Hir.Proper (looks : Prop) (h : Hir) : Prop :=
  h.HasShape ∧ h.IsText ∧ (h.isLook = true → looks)

namespace Normal

mutual

/-- All bounds are in order, and sequences and choices have several parts. Places in the text are
asked for only if `looks`. -/
def Sound (looks : Prop) : Normal → Prop
  | empty | literal _ | set _ _ => True
  | look _ => looks
  | repetition body min max _ => (∀ m ∈ max, min ≤ m) ∧ Sound looks body
  | capture _ _ body => Sound looks body
  | sequence items => 2 ≤ items.length ∧ AllSound looks items
  | alternatives branches => 2 ≤ branches.length ∧ AllSound looks branches

def AllSound (looks : Prop) : List Normal → Prop
  | [] => True
  | p :: ps => Sound looks p ∧ AllSound looks ps

end

variable {looks : Prop} {p : Normal} {ps : List Normal}

theorem allSound_iff : AllSound looks ps ↔ ∀ p ∈ ps, Sound looks p := by
  induction ps with
  | nil => simp [AllSound]
  | cons p ps ih => simp [AllSound, ih]

theorem sound_sequence :
    Sound looks (sequence ps) ↔ 2 ≤ ps.length ∧ ∀ p ∈ ps, Sound looks p := by
  rw [Sound, allSound_iff]

theorem sound_alternatives :
    Sound looks (alternatives ps) ↔ 2 ≤ ps.length ∧ ∀ p ∈ ps, Sound looks p := by
  rw [Sound, allSound_iff]

theorem sound_ofRanges (r : Ranges) (bytes : Bool) : Sound looks (ofRanges r bytes) := by
  unfold ofRanges
  split
  · exact trivial
  · split <;> exact trivial

/-- A repetition as it is written: nothing or the body alone where the bounds say so. -/
def bounded (body : Normal) (min : Nat) (max : Option Nat) (greedy : Bool) : Normal :=
  if max = some 0 ∧ min = 0 then empty
  else if max = some 1 ∧ min = 1 then body
  else repetition body min max greedy

theorem repeated_of_solid {min : Nat} {max : Option Nat} {greedy : Bool} (h : p.isVoid = false) :
    p.repeated min max greedy = p.bounded min max greedy := by
  simp [repeated, bounded, h]

theorem repeated_of_void {min : Nat} {max : Option Nat} {greedy : Bool} (h : p.isVoid = true) :
    p.repeated min max greedy = p.bounded (min.min 1) (some (max.elim 1 (Nat.min · 1))) greedy := by
  simp [repeated, bounded, h]

theorem sound_bounded (h : Sound looks p) {min : Nat} {max : Option Nat}
    (ordered : ∀ m ∈ max, min ≤ m) (greedy : Bool) : Sound looks (p.bounded min max greedy) := by
  unfold bounded
  split
  · exact trivial
  · split
    · exact h
    · exact ⟨ordered, h⟩

theorem sound_repeated (h : Sound looks p) {min : Nat} {max : Option Nat}
    (ordered : ∀ m ∈ max, min ≤ m) (greedy : Bool) : Sound looks (p.repeated min max greedy) := by
  cases void : p.isVoid with
  | false =>
    rw [repeated_of_solid void]
    exact sound_bounded h ordered greedy
  | true =>
    rw [repeated_of_void void]
    refine sound_bounded h ?_ greedy
    rintro m ⟨⟩
    cases max with
    | none => exact Nat.min_le_right ..
    | some m =>
      have le : min ≤ m := ordered m rfl
      exact Nat.le_min.mpr ⟨Nat.le_trans (Nat.min_le_left ..) le, Nat.min_le_right ..⟩

theorem sound_of_mem_items (h : Sound looks p) : ∀ q ∈ p.items, Sound looks q := by
  unfold items
  split
  · exact (sound_sequence.mp h).2
  · simpa using h

theorem sound_of_mem_branches (h : Sound looks p) : ∀ q ∈ p.branches, Sound looks q := by
  unfold branches
  split
  · exact (sound_alternatives.mp h).2
  · simpa using h

theorem sound_of_mem_cons (h : Sound looks p) (hs : ∀ q ∈ ps, Sound looks q) :
    ∀ q ∈ cons p ps, Sound looks q := by
  unfold cons
  split
  · exact hs
  · intro q hq
    rcases List.mem_cons.mp hq with rfl | rest
    · exact trivial
    · exact hs q (List.mem_cons_of_mem _ rest)
  · exact List.forall_mem_cons.mpr ⟨h, hs⟩

theorem two_le_length (none : ps ≠ []) (one : ∀ p, ps ≠ [p]) : 2 ≤ ps.length := by
  cases ps with
  | nil => exact absurd rfl none
  | cons p rest =>
    cases rest with
    | nil => exact absurd rfl (one p)
    | cons q rest => simp

theorem sound_concat (h : ∀ p ∈ ps, Sound looks p) : Sound looks (concat ps) := by
  have items : ∀ q ∈ ps.flatMap items, Sound looks q := by
    intro q hq
    obtain ⟨p, hp, hq⟩ := List.mem_flatMap.mp hq
    exact sound_of_mem_items (h p hp) q hq
  have joined : ∀ q ∈ (ps.flatMap Normal.items).foldr cons [], Sound looks q := by
    generalize ps.flatMap Normal.items = qs at items
    induction qs with
    | nil => simp
    | cons q qs ih =>
      have both := List.forall_mem_cons.mp items
      exact sound_of_mem_cons both.1 (ih both.2)
  unfold concat
  split
  · exact trivial
  · next one => exact joined _ (one ▸ List.mem_singleton_self _)
  · next none one => exact sound_sequence.mpr ⟨two_le_length none one, joined⟩

/-- What becomes of several alternatives. -/
theorem alternation_cases (rounds : Nat) (ps : List Normal) :
    (ps.flatMap branches = [] ∧ alternation rounds ps = ofRanges ∅ true) ∨
    (∃ p, ps.flatMap branches = [p] ∧ alternation rounds ps = p) ∨
    (∃ cs, (ps.flatMap branches).mapM char? = some cs ∧
      alternation rounds ps = ofRanges (Ranges.ofChars cs) false) ∨
    (∃ rs, (ps.flatMap branches).mapM ranges? = some rs ∧
      alternation rounds ps = ofRanges (.unions rs) false) ∨
    (∃ n, rounds = n + 1 ∧ shared (ps.flatMap branches) ≠ [] ∧
      alternation rounds ps = concat (shared (ps.flatMap branches) ++
        [alternation n ((ps.flatMap branches).map fun q =>
          concat (q.items.drop (shared (ps.flatMap branches)).length))])) ∨
    (2 ≤ (ps.flatMap branches).length ∧
      alternation rounds ps = alternatives (ps.flatMap branches)) := by
  generalize result : alternation rounds ps = a
  unfold alternation at result
  generalize ps.flatMap branches = qs at result ⊢
  split at result
  · exact .inl ⟨rfl, result.symm⟩
  · exact .inr (.inl ⟨_, rfl, result.symm⟩)
  · next none one =>
    refine .inr (.inr ?_)
    split at result
    · next chars => exact .inl ⟨_, chars, result.symm⟩
    · next sets => exact .inr (.inl ⟨_, sets, result.symm⟩)
    · next common =>
      refine .inr (.inr (.inl ⟨_, rfl, ?_, ?_⟩))
      · simp [common]
      · rw [← result, common]
    · exact .inr (.inr (.inr ⟨two_le_length none one, result.symm⟩))

theorem commonItems_prefix (ps qs : List Normal) :
    commonItems ps qs <+: ps ∧ commonItems ps qs <+: qs := by
  fun_induction commonItems ps qs with
  | case1 p ps qs ih => simpa using ih
  | case2 => simp
  | case3 => simp

theorem foldl_prefix {f : List Normal → Normal → List Normal}
    (step : ∀ common p, f common p <+: common ∧ f common p <+: p.items) (common : List Normal)
    (ps : List Normal) :
    ps.foldl f common <+: common ∧ ∀ p ∈ ps, ps.foldl f common <+: p.items := by
  induction ps generalizing common with
  | nil => exact ⟨List.prefix_rfl, by simp⟩
  | cons p ps ih =>
    obtain ⟨first, others⟩ := ih (f common p)
    rw [List.foldl_cons]
    exact ⟨first.trans (step common p).1,
      List.forall_mem_cons.mpr ⟨first.trans (step common p).2, others⟩⟩

theorem shared_prefix_cons (qs ps : List Normal) :
    shared (sequence qs :: ps) <+: qs ∧ ∀ p ∈ ps, shared (sequence qs :: ps) <+: p.items := by
  refine foldl_prefix ?_ qs ps
  intro common p
  split
  · exact commonItems_prefix common _
  · exact ⟨List.nil_prefix, List.nil_prefix⟩

/-- What alternatives share is what each of them begins with. -/
theorem shared_prefix {p : Normal} (h : p ∈ ps) : shared ps <+: p.items := by
  cases ps with
  | nil => cases h
  | cons q rest =>
    cases q with
    | sequence qs =>
      obtain ⟨first, others⟩ := shared_prefix_cons qs rest
      rcases List.mem_cons.mp h with rfl | h
      · exact first
      · exact others p h
    | _ => exact List.nil_prefix

theorem sound_of_mem_shared (h : ∀ p ∈ ps, Sound looks p) : ∀ p ∈ shared ps, Sound looks p := by
  intro p hp
  cases ps with
  | nil => cases hp
  | cons q qs =>
    have begins : shared (q :: qs) <+: q.items := shared_prefix List.mem_cons_self
    exact sound_of_mem_items (h q List.mem_cons_self) p (begins.subset hp)

theorem sound_alternation (rounds : Nat) (h : ∀ p ∈ ps, Sound looks p) :
    Sound looks (alternation rounds ps) := by
  induction rounds using Nat.strongRecOn generalizing ps with
  | _ rounds ih =>
    have sound : ∀ q ∈ ps.flatMap branches, Sound looks q := by
      intro q hq
      obtain ⟨p, hp, hq⟩ := List.mem_flatMap.mp hq
      exact sound_of_mem_branches (h p hp) q hq
    rcases alternation_cases rounds ps with ⟨-, eq⟩ | ⟨p, one, eq⟩ | ⟨cs, -, eq⟩ | ⟨rs, -, eq⟩ |
      ⟨n, rfl, -, eq⟩ | ⟨many, eq⟩
    all_goals rw [eq]
    · exact sound_ofRanges _ _
    · exact sound p (one ▸ List.mem_singleton_self p)
    · exact sound_ofRanges _ _
    · exact sound_ofRanges _ _
    · refine sound_concat ?_
      intro p hp
      rcases List.mem_append.mp hp with hp | hp
      · exact sound_of_mem_shared sound p hp
      · rw [List.mem_singleton.mp hp]
        refine ih n (Nat.lt_succ_self n) ?_
        intro q hq
        obtain ⟨b, hb, rfl⟩ := List.mem_map.mp hq
        exact sound_concat fun i hi => sound_of_mem_items (sound b hb) i (List.mem_of_mem_drop hi)
    · exact sound_alternatives.mpr ⟨many, sound⟩

theorem sound_anyOf (h : ∀ p ∈ ps, Sound looks p) : Sound looks (anyOf ps) := sound_alternation _ h

theorem length_toHirs (ps : List Normal) : (toHirs ps).length = ps.length := by
  induction ps with
  | nil => rfl
  | cons p ps ih => rw [toHirs, List.length_cons, List.length_cons, ih]

mutual

/-- What is given back of a sound pattern is as it is promised. -/
theorem proper_toHir : {p : Normal} → Sound looks p → ∀ x ∈ p.toHir.walk, x.Proper looks
  | empty, _ => by simp [toHir, Hir.walk, Hir.Proper, Hir.HasShape, Hir.IsText, Hir.isLook]
  | literal text, _ => by
    have valid : (String.ofList text).toUTF8.IsValidUTF8 := (String.ofList text).isValidUTF8
    simpa [toHir, Hir.walk, Hir.Proper, Hir.HasShape, Hir.IsText, Hir.isLook] using valid
  | set r false, _ => by
    simp [toHir, Hir.walk, Hir.Proper, Hir.HasShape, Hir.IsText, Hir.isLook]
  | set r true, _ => by
    rw [toHir]
    split
    · next ranges bytes =>
      have ascii := (ByteRange.of_mapM bytes).1
      simpa [Hir.walk, Hir.Proper, Hir.HasShape, Hir.IsText, Hir.isLook] using ascii
    · simp [Hir.walk, Hir.Proper, Hir.HasShape, Hir.IsText, Hir.isLook]
  | look l, places => by
    have given : looks := places
    simp [toHir, Hir.walk, Hir.Proper, Hir.HasShape, Hir.IsText, given]
  | repetition body min max greedy, ⟨ordered, sound⟩ => by
    rw [toHir, Hir.walk, List.forall_mem_cons]
    exact ⟨⟨ordered, trivial, nofun⟩, proper_toHir sound⟩
  | capture index name body, sound => by
    rw [toHir, Hir.walk, List.forall_mem_cons]
    exact ⟨⟨trivial, trivial, nofun⟩, proper_toHir (p := body) sound⟩
  | sequence items, ⟨many, sound⟩ => by
    rw [← length_toHirs] at many
    rw [toHir, Hir.walk, List.forall_mem_cons]
    exact ⟨⟨many, trivial, nofun⟩, proper_toHirs sound⟩
  | alternatives branches, ⟨many, sound⟩ => by
    rw [← length_toHirs] at many
    rw [toHir, Hir.walk, List.forall_mem_cons]
    exact ⟨⟨many, trivial, nofun⟩, proper_toHirs sound⟩

theorem proper_toHirs : {ps : List Normal} → AllSound looks ps →
    ∀ x ∈ Hir.walkAll (toHirs ps), x.Proper looks
  | [], _ => by simp [toHirs, Hir.walkAll]
  | p :: ps, ⟨first, others⟩ => by
    rw [toHirs, Hir.walkAll, List.forall_mem_append]
    exact ⟨proper_toHir first, proper_toHirs others⟩

end

end Normal

end PatternAutomata.Pattern
