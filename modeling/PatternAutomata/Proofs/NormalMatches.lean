import PatternAutomata.Expr.Matches
import PatternAutomata.Proofs.RangeRows
import PatternAutomata.Proofs.SoundNormals

/-!
# What normal patterns match

A normal pattern matches the front of a text, as an expression does. The functions that put normal
patterns together leave out and join what makes no difference to that, one law for each of them, and
what is given back of a normal pattern matches the same (`matches_toHir`).
-/
namespace PatternAutomata.Pattern

namespace Normal

section
variable (ask : Look → List Char → Prop)

mutual

/-- The pattern matches the front of the first text and leaves the second one. Whether a place is
the one that is asked for is left open. -/
def Matches : Normal → List Char → List Char → Prop
  | empty, s, t => s = t
  | literal text, s, t => s = text ++ t
  | set r _, s, t => ∃ c ∈ r.chars, s = c :: t
  | look l, s, t => s = t ∧ ask l s
  | repetition body min max _, s, t =>
    ∃ n, min ≤ n ∧ (∀ m ∈ max, n ≤ m) ∧ Iterate (Matches body) n s t
  | capture _ _ body, s, t => Matches body s t
  | sequence items, s, t => MatchesInTurn items s t
  | alternatives branches, s, t => MatchesAny branches s t

def MatchesInTurn : List Normal → List Char → List Char → Prop
  | [], s, t => s = t
  | p :: ps, s, t => ∃ u, Matches p s u ∧ MatchesInTurn ps u t

def MatchesAny : List Normal → List Char → List Char → Prop
  | [], _, _ => False
  | p :: ps, s, t => Matches p s t ∨ MatchesAny ps s t

end

end

variable {ask : Look → List Char → Prop} {p q : Normal} {ps qs : List Normal} {s t : List Char}

theorem matchesAny_iff : MatchesAny ask ps s t ↔ ∃ p ∈ ps, Matches ask p s t := by
  induction ps with
  | nil => simp [MatchesAny]
  | cons p ps ih => simp [MatchesAny, ih]

theorem matchesInTurn_append : MatchesInTurn ask (ps ++ qs) s t ↔
    ∃ u, MatchesInTurn ask ps s u ∧ MatchesInTurn ask qs u t := by
  induction ps generalizing s with
  | nil => simp [MatchesInTurn]
  | cons p ps ih =>
    simp only [List.cons_append, MatchesInTurn, ih]
    constructor
    · rintro ⟨u, first, v, others, last⟩
      exact ⟨v, ⟨u, first, others⟩, last⟩
    · rintro ⟨v, ⟨u, first, others⟩, last⟩
      exact ⟨u, first, v, others, last⟩

theorem matchesInTurn_singleton : MatchesInTurn ask [p] s t ↔ Matches ask p s t := by
  simp [MatchesInTurn]

theorem matches_ofRanges (r : Ranges) (bytes : Bool) :
    Matches ask (ofRanges r bytes) s t ↔ ∃ c ∈ r.chars, s = c :: t := by
  unfold ofRanges
  split
  · next c one => simp [Matches, Ranges.mem_of_single? one]
  · split <;> simp [Matches]

/-- A pattern is matched by matching its items in turn. -/
theorem matchesInTurn_items (p : Normal) :
    MatchesInTurn ask p.items s t ↔ Matches ask p s t := by
  unfold items
  split
  · simp [Matches]
  · exact matchesInTurn_singleton

theorem matchesAny_branches (p : Normal) :
    MatchesAny ask p.branches s t ↔ Matches ask p s t := by
  unfold branches
  split
  · simp [Matches]
  · simp [MatchesAny]

theorem matchesInTurn_cons (p : Normal) (ps : List Normal) :
    MatchesInTurn ask (cons p ps) s t ↔ MatchesInTurn ask (p :: ps) s t := by
  unfold cons
  split
  · simp [MatchesInTurn, Matches]
  · next text text' ps =>
    simp only [MatchesInTurn, Matches]
    constructor
    · rintro ⟨u, rfl, others⟩
      exact ⟨_, List.append_assoc .., u, rfl, others⟩
    · rintro ⟨_, rfl, u, rfl, others⟩
      exact ⟨u, (List.append_assoc ..).symm, others⟩
  · rfl

theorem matchesInTurn_foldr (ps : List Normal) (s t : List Char) :
    MatchesInTurn ask (ps.foldr cons []) s t ↔ MatchesInTurn ask ps s t := by
  induction ps generalizing s with
  | nil => rfl
  | cons p ps ih =>
    rw [List.foldr_cons, matchesInTurn_cons]
    simp only [MatchesInTurn, ih]

theorem matchesInTurn_flatMap (ps : List Normal) (s t : List Char) :
    MatchesInTurn ask (ps.flatMap items) s t ↔ MatchesInTurn ask ps s t := by
  induction ps generalizing s with
  | nil => rfl
  | cons p ps ih =>
    simp only [List.flatMap_cons, matchesInTurn_append, MatchesInTurn, matchesInTurn_items, ih]

/-- Patterns one after another. -/
theorem matches_concat (ps : List Normal) (s t : List Char) :
    Matches ask (concat ps) s t ↔ MatchesInTurn ask ps s t := by
  rw [← matchesInTurn_flatMap, ← matchesInTurn_foldr]
  unfold concat
  split
  · next none =>
    rw [none]
    rfl
  · next p one => rw [one, matchesInTurn_singleton]
  · rfl

theorem matchesAny_flatMap (ps : List Normal) :
    MatchesAny ask (ps.flatMap branches) s t ↔ MatchesAny ask ps s t := by
  simp only [matchesAny_iff, List.mem_flatMap]
  constructor
  · rintro ⟨b, ⟨p, hp, hb⟩, matched⟩
    exact ⟨p, hp, (matchesAny_branches p).mp (matchesAny_iff.mpr ⟨b, hb, matched⟩)⟩
  · rintro ⟨p, hp, matched⟩
    obtain ⟨b, hb, matched⟩ := matchesAny_iff.mp ((matchesAny_branches p).mpr matched)
    exact ⟨b, ⟨p, hp, hb⟩, matched⟩

theorem matchesAny_of_chars {cs : List Char} (h : ps.mapM char? = some cs) :
    MatchesAny ask ps s t ↔ ∃ c ∈ cs, s = c :: t := by
  induction ps generalizing cs with
  | nil =>
    cases h
    simp [MatchesAny]
  | cons p ps ih =>
    obtain ⟨c, hc, cs, hcs, rfl⟩ := mapM_cons_eq_some.mp h
    have one : p = literal [c] := by
      unfold char? at hc
      split at hc
      · cases hc
        rfl
      · cases hc
    rw [MatchesAny, ih hcs, one]
    simp [Matches]

theorem matchesAny_of_ranges {rs : List Ranges} (h : ps.mapM ranges? = some rs) :
    MatchesAny ask ps s t ↔ ∃ r ∈ rs, ∃ c ∈ r.chars, s = c :: t := by
  induction ps generalizing rs with
  | nil =>
    cases h
    simp [MatchesAny]
  | cons p ps ih =>
    obtain ⟨r, hr, rs, hrs, rfl⟩ := mapM_cons_eq_some.mp h
    obtain ⟨bytes, rfl⟩ : ∃ bytes, p = set r bytes := by
      unfold ranges? at hr
      split at hr
      · cases hr
        exact ⟨_, rfl⟩
      · cases hr
    rw [MatchesAny, ih hrs]
    simp [Matches]

/-- A branch begins with what all branches share. -/
theorem matches_of_shared (h : p ∈ ps) : Matches ask p s t ↔ ∃ u,
    MatchesInTurn ask (shared ps) s u ∧
      Matches ask (concat (p.items.drop (shared ps).length)) u t := by
  obtain ⟨rest, items⟩ := shared_prefix h
  rw [← matchesInTurn_items, ← items, matchesInTurn_append, List.drop_left]
  simp only [matches_concat]

/-- Any one of several patterns. -/
theorem matches_alternation (rounds : Nat) (ps : List Normal) (s t : List Char) :
    Matches ask (alternation rounds ps) s t ↔ MatchesAny ask ps s t := by
  induction rounds using Nat.strongRecOn generalizing ps s t with
  | _ rounds ih =>
    rw [← matchesAny_flatMap]
    rcases alternation_cases rounds ps with ⟨none, eq⟩ | ⟨p, one, eq⟩ | ⟨cs, chars, eq⟩ |
      ⟨rs, sets, eq⟩ | ⟨n, rfl, -, eq⟩ | ⟨-, eq⟩
    all_goals rw [eq]
    · rw [matches_ofRanges, none]
      simp [MatchesAny, Ranges.not_mem_empty]
    · rw [one]
      simp [MatchesAny]
    · rw [matches_ofRanges, matchesAny_of_chars chars]
      simp only [Ranges.mem_ofChars]
    · rw [matches_ofRanges, matchesAny_of_ranges sets]
      simp only [Ranges.mem_unions]
      constructor
      · rintro ⟨c, ⟨r, hr, hc⟩, rfl⟩
        exact ⟨r, hr, c, hc, rfl⟩
      · rintro ⟨r, hr, c, hc, rfl⟩
        exact ⟨c, ⟨r, hr, hc⟩, rfl⟩
    · generalize ps.flatMap branches = bs
      rw [matches_concat, matchesInTurn_append]
      simp only [matchesInTurn_singleton, ih n (Nat.lt_succ_self n), matchesAny_iff,
        List.mem_map]
      constructor
      · rintro ⟨u, common, _, ⟨b, hb, rfl⟩, matched⟩
        exact ⟨b, hb, (matches_of_shared hb).mpr ⟨u, common, matched⟩⟩
      · rintro ⟨b, hb, matched⟩
        obtain ⟨u, common, matched⟩ := (matches_of_shared hb).mp matched
        exact ⟨u, common, _, ⟨b, hb, rfl⟩, matched⟩
    · rfl

theorem matches_anyOf (ps : List Normal) (s t : List Char) :
    Matches ask (anyOf ps) s t ↔ MatchesAny ask ps s t := matches_alternation _ ps s t

mutual

/-- A void pattern takes nothing. -/
theorem eq_of_isVoid : {p : Normal} → p.isVoid = true → ∀ {s t}, Matches ask p s t → s = t
  | empty, _, _, _, matched => matched
  | literal _, void, _, _, _ => by cases void
  | set _ _, void, _, _, _ => by cases void
  | look _, _, _, _, matched => matched.1
  | repetition body min max greedy, void, s, t, ⟨n, low, high, rounds⟩ => by
    have body_void : body.isVoid = true := by
      rw [isVoid, Bool.and_eq_true] at void
      exact void.2
    clear void low high
    induction n generalizing s with
    | zero => exact rounds
    | succ n ih =>
      obtain ⟨u, first, others⟩ := rounds
      rw [eq_of_isVoid body_void first, ih u others]
  | capture _ _ body, void, _, _, matched => eq_of_isVoid (p := body) void matched
  | sequence items, void, s, t, matched => by
    have items_void : areVoid items = true := void
    have each := eq_of_areVoid items_void
    clear void items_void
    induction items generalizing s with
    | nil => exact matched
    | cons p ps ih =>
      obtain ⟨first, others⟩ := List.forall_mem_cons.mp each
      obtain ⟨u, taken, left⟩ := matched
      rw [first s u taken, ih u left others]
  | alternatives branches, void, _, _, matched => by
    have branches_void : areVoid branches = true := void
    obtain ⟨p, hp, matched⟩ := matchesAny_iff.mp matched
    exact eq_of_areVoid branches_void p hp _ _ matched

theorem eq_of_areVoid : {ps : List Normal} → areVoid ps = true →
    ∀ p ∈ ps, ∀ s t, Matches ask p s t → s = t
  | [], _ => by simp
  | p :: ps, void => by
    rw [areVoid, Bool.and_eq_true] at void
    exact List.forall_mem_cons.mpr ⟨fun s t => eq_of_isVoid void.1, eq_of_areVoid void.2⟩

end

theorem matches_bounded {min : Nat} {max : Option Nat} (greedy : Bool) :
    Matches ask (p.bounded min max greedy) s t ↔ Times (Matches ask p) min max s t := by
  unfold bounded
  split
  · next none =>
    obtain ⟨rfl, rfl⟩ := none
    simp [Times, Matches, Iterate]
  · split
    · next one =>
      obtain ⟨rfl, rfl⟩ := one
      constructor
      · intro matched
        exact ⟨1, Nat.le_refl 1, by simp, t, matched, rfl⟩
      · rintro ⟨n, low, high, rounds⟩
        have once : n = 1 := Nat.le_antisymm (high 1 rfl) low
        subst once
        obtain ⟨u, matched, rfl⟩ := rounds
        exact matched
    · rfl

theorem iterate_of_void (h : p.isVoid = true) {n : Nat} :
    Iterate (Matches ask p) n s t ↔ s = t ∧ (n = 0 ∨ Matches ask p s s) := by
  induction n with
  | zero => simp [Iterate]
  | succ n ih =>
    constructor
    · rintro ⟨u, first, others⟩
      cases eq_of_isVoid h first
      exact ⟨(ih.mp others).1, .inr first⟩
    · rintro ⟨rfl, matched⟩
      have first : Matches ask p s s := by simpa using matched
      exact ⟨s, first, ih.mpr ⟨rfl, .inr first⟩⟩

/-- What is void is repeated at most once. -/
theorem matches_repeated {min : Nat} {max : Option Nat} (ordered : ∀ m ∈ max, min ≤ m)
    (greedy : Bool) :
    Matches ask (p.repeated min max greedy) s t ↔ Times (Matches ask p) min max s t := by
  cases void : p.isVoid with
  | false => rw [repeated_of_solid void, matches_bounded]
  | true =>
    rw [repeated_of_void void, matches_bounded]
    simp only [Times, iterate_of_void void]
    cases min with
    | zero =>
      constructor
      · rintro ⟨n, -, -, same, -⟩
        exact ⟨0, Nat.le_refl 0, by simp, same, .inl rfl⟩
      · rintro ⟨n, -, -, same, -⟩
        exact ⟨0, Nat.zero_le _, by simp, same, .inl rfl⟩
    | succ min =>
      constructor
      · rintro ⟨n, low, -, same, matched⟩
        refine ⟨min + 1, Nat.le_refl _, ordered, same, .inr ?_⟩
        refine matched.resolve_left ?_
        rintro rfl
        simp at low
      · rintro ⟨n, low, -, same, matched⟩
        refine ⟨1, Nat.min_le_right .., ?_, same, .inr (matched.resolve_left (by omega))⟩
        rintro m ⟨⟩
        cases max with
        | none => exact Nat.le_refl 1
        | some m =>
          have le : min + 1 ≤ m := ordered m rfl
          exact Nat.le_min.mpr ⟨by omega, Nat.le_refl 1⟩

mutual

/-- What is given back of a pattern that asks for no place matches the same. -/
theorem matches_toHir : {p : Normal} → Sound False p → p.toHir.Matches = Matches ask p
  | empty, _ => by
    ext s t
    rw [toHir, Hir.Matches, Matches]
  | literal text, _ => by
    ext s t
    rw [toHir, Hir.Matches, Matches, Hir.fromUTF8?_toUTF8]
    simp
  | set r false, _ => by
    ext s t
    simp [toHir, Hir.Matches, Matches, Ranges.mem_chars]
  | set r true, _ => by
    ext s t
    rw [toHir]
    split
    · next ranges bytes =>
      obtain ⟨ascii, same⟩ := ByteRange.of_mapM bytes
      have members (x : Char) : ((∃ b ∈ ranges, b.lo.toNat ≤ x.toNat ∧ x.toNat ≤ b.hi.toNat) ∧
          x.toNat < 0x80) ↔ x ∈ r.chars := by
        rw [Ranges.mem_chars, ← same]
        constructor
        · exact And.left
        · rintro ⟨b, hb, above, below⟩
          have top : b.hi.toNat ≤ 0x7F := ascii b hb
          exact ⟨⟨b, hb, above, below⟩, by omega⟩
      simp only [Hir.Matches, Matches, ← members, and_assoc]
    · simp [Hir.Matches, Matches, Ranges.mem_chars]
  | look l, places => False.elim places
  | repetition body min max greedy, ⟨_, sound⟩ => by
    ext s t
    rw [toHir, Hir.Matches, Matches, matches_toHir sound]
  | capture index name body, sound => by
    ext s t
    rw [toHir, Hir.Matches, Matches, matches_toHir (p := body) sound]
  | sequence items, ⟨_, sound⟩ => by
    ext s t
    rw [toHir, Hir.Matches, Matches, (matches_toHirs sound).1]
  | alternatives branches, ⟨_, sound⟩ => by
    ext s t
    rw [toHir, Hir.Matches, Matches, (matches_toHirs sound).2]

theorem matches_toHirs : {ps : List Normal} → AllSound False ps →
    Hir.MatchesInTurn (toHirs ps) = MatchesInTurn ask ps ∧
      Hir.MatchesAny (toHirs ps) = MatchesAny ask ps
  | [], _ => by
    constructor
    · ext s t
      rw [toHirs, Hir.MatchesInTurn, MatchesInTurn]
    · ext s t
      rw [toHirs, Hir.MatchesAny, MatchesAny]
  | p :: ps, ⟨first, others⟩ => by
    have same := matches_toHir first
    obtain ⟨inTurn, any⟩ := matches_toHirs others
    constructor
    · ext s t
      rw [toHirs, Hir.MatchesInTurn, MatchesInTurn, same, inTurn]
    · ext s t
      rw [toHirs, Hir.MatchesAny, MatchesAny, same, any]

end

end Normal

end PatternAutomata.Pattern
