import PatternAutomata.Construction.Compiled
import PatternAutomata.Expr.Matches
import PatternAutomata.Expr.Parser
import PatternAutomata.Proofs.CharSets

/-!
# What becomes of what a parser gives back

What a parser gives back matches the front of a text, as an expression does, unless it asks for a
place. A parser may promise that sequences and choices have several parts and bounds are in order,
and that it speaks of nothing but text. From the one promise it follows that the expression has no
malformed part (`clean_of_toExpr`) and matches the same (`matches_of_toExpr`), from the other that
there is one unless a place is asked for (`exists_toExpr`).
-/
namespace PatternAutomata

namespace Expr

theorem bounds_of_ownFault? {body : Expr} {min : Nat} {max : Option Nat}
    (h : (repetition body min max).ownFault? = none) : max ≠ some 0 ∧ ∀ m ∈ max, min ≤ m := by
  cases max with
  | none => simp
  | some m =>
    simp only [ownFault?, Option.any_some, ite_eq_right_iff, reduceCtorEq, imp_false,
      Bool.or_eq_true, decide_eq_true_eq, not_or, Option.some.injEq, Nat.not_lt] at h
    simpa using h

/-- A part that is not malformed in itself, and looks nowhere ahead. -/
def Clean (e : Expr) : Prop := e.ownFault? = none ∧ e.isLookahead = false

theorem clean_literal (text : List Char) : ∀ x ∈ (literal text).walk, x.Clean := by
  simp [walk, Clean, ownFault?, isLookahead]

theorem clean_ofSet (s : CharSet) : ∀ x ∈ (ofSet s).walk, x.Clean := by
  simp [ofSet, walk, Clean, ownFault?, isLookahead]

end Expr

namespace Pattern

/-- A number of steps of a relation in a row, within bounds. -/
def Times (R : List Char → List Char → Prop) (min : Nat) (max : Option Nat)
    (s t : List Char) : Prop :=
  ∃ n, min ≤ n ∧ (∀ m ∈ max, n ≤ m) ∧ Iterate R n s t

namespace Hir

mutual

/-- What a parser gives back and all its parts, each before its own parts. -/
def walk : Hir → List Hir
  | empty => [empty]
  | literal bytes => [literal bytes]
  | charClass ranges => [charClass ranges]
  | byteClass c => [byteClass c]
  | look l => [look l]
  | repetition body min max greedy => repetition body min max greedy :: walk body
  | capture index name body => capture index name body :: walk body
  | concat items => concat items :: walkAll items
  | alternation branches => alternation branches :: walkAll branches

def walkAll : List Hir → List Hir
  | [] => []
  | h :: hs => walk h ++ walkAll hs

end

/-- Sequences and choices have several parts, and the bounds of repetitions are in order. -/
def HasShape : Hir → Prop
  | repetition _ min max _ => ∀ m ∈ max, min ≤ m
  | concat items => 2 ≤ items.length
  | alternation branches => 2 ≤ branches.length
  | _ => True

/-- Bytes are those of a text. -/
def IsText : Hir → Prop
  | literal bytes => bytes.IsValidUTF8
  | byteClass c => ∀ r ∈ c.ranges, r.hi ≤ 0x7F
  | _ => True

def isLook : Hir → Bool
  | look _ => true
  | _ => false

mutual

/-- The front of the first text is matched and the second one is left. What asks for a place is left
out: it depends on more than the text that is ahead. -/
def Matches : Hir → List Char → List Char → Prop
  | empty, s, t => s = t
  | literal bytes, s, t => ∃ text, String.fromUTF8? bytes = some text ∧ s = text.toList ++ t
  | charClass ranges, s, t => ∃ x, (∃ r ∈ ranges, x ∈ r) ∧ s = x :: t
  | byteClass c, s, t =>
    ∃ x : Char, (∃ r ∈ c.ranges, r.lo.toNat ≤ x.toNat ∧ x.toNat ≤ r.hi.toNat) ∧
      x.toNat < 0x80 ∧ s = x :: t
  | look _, _, _ => False
  | repetition body min max _, s, t =>
    ∃ n, min ≤ n ∧ (∀ m ∈ max, n ≤ m) ∧ Iterate (Matches body) n s t
  | capture _ _ body, s, t => Matches body s t
  | concat items, s, t => MatchesInTurn items s t
  | alternation branches, s, t => MatchesAny branches s t

def MatchesInTurn : List Hir → List Char → List Char → Prop
  | [], s, t => s = t
  | h :: hs, s, t => ∃ u, Matches h s u ∧ MatchesInTurn hs u t

def MatchesAny : List Hir → List Char → List Char → Prop
  | [], _, _ => False
  | h :: hs, s, t => Matches h s t ∨ MatchesAny hs s t

end

variable {h : Hir} {hs : List Hir} {e : Expr} {es : List Expr}

theorem length_of_toExprs (ok : toExprs hs = .ok es) : es.length = hs.length := by
  induction hs generalizing es with
  | nil =>
    cases ok
    rfl
  | cons h hs ih =>
    obtain ⟨e, -, ok⟩ := bind_eq_ok.mp ok
    obtain ⟨es, oks, ⟨⟩⟩ := bind_eq_ok.mp ok
    rw [List.length_cons, List.length_cons, ih oks]

theorem ownFault?_of_two_le {es : List Expr} (many : 2 ≤ es.length) :
    (Expr.sequence es).ownFault? = none ∧ (Expr.alternatives es).ownFault? = none := by
  cases es with
  | nil => cases many
  | cons e es => exact ⟨rfl, rfl⟩

mutual

/-- With all shapes as they are promised, the expression has no malformed part. -/
theorem clean_of_toExpr : {h : Hir} → {e : Expr} → (∀ x ∈ h.walk, x.HasShape) →
    toExpr h = .ok e → ∀ x ∈ e.walk, x.Clean
  | empty, e, _, ok => by
    cases ok
    exact Expr.clean_literal _
  | literal bytes, e, _, ok => by
    rw [toExpr] at ok
    split at ok
    · cases ok
      exact Expr.clean_literal _
    · cases ok
  | charClass ranges, e, _, ok => by
    cases ok
    exact Expr.clean_ofSet _
  | byteClass c, e, _, ok => by
    rw [toExpr] at ok
    split at ok
    · cases ok
    · cases ok
      exact Expr.clean_ofSet _
  | look l, e, _, ok => by cases ok
  | repetition body min max greedy, e, shaped, ok => by
    rw [walk, List.forall_mem_cons] at shaped
    rw [toExpr] at ok
    split at ok
    · cases ok
      exact Expr.clean_literal _
    · next positive =>
      obtain ⟨b, hb, ⟨⟩⟩ := bind_eq_ok.mp ok
      have ordered : ∀ m ∈ max, min ≤ m := shaped.1
      have own : ¬ (max = some 0 || max.any (· < min)) = true := by
        cases max <;> simp_all
      rw [Expr.walk, List.forall_mem_cons]
      exact ⟨⟨if_neg own, rfl⟩, clean_of_toExpr shaped.2 hb⟩
  | capture index name body, e, shaped, ok => by
    rw [walk, List.forall_mem_cons] at shaped
    exact clean_of_toExpr (h := body) shaped.2 ok
  | concat items, e, shaped, ok => by
    rw [walk, List.forall_mem_cons] at shaped
    obtain ⟨es, hes, ⟨⟩⟩ := bind_eq_ok.mp ok
    have many : 2 ≤ es.length := (length_of_toExprs hes).symm ▸ shaped.1
    rw [Expr.walk, List.forall_mem_cons]
    exact ⟨⟨(ownFault?_of_two_le many).1, rfl⟩, clean_of_toExprs shaped.2 hes⟩
  | alternation branches, e, shaped, ok => by
    rw [walk, List.forall_mem_cons] at shaped
    obtain ⟨es, hes, ⟨⟩⟩ := bind_eq_ok.mp ok
    have many : 2 ≤ es.length := (length_of_toExprs hes).symm ▸ shaped.1
    rw [Expr.walk, List.forall_mem_cons]
    exact ⟨⟨(ownFault?_of_two_le many).2, rfl⟩, clean_of_toExprs shaped.2 hes⟩

theorem clean_of_toExprs : {hs : List Hir} → {es : List Expr} → (∀ x ∈ walkAll hs, x.HasShape) →
    toExprs hs = .ok es → ∀ x ∈ Expr.walkAll es, x.Clean
  | [], es, _, ok => by
    cases ok
    simp [Expr.walkAll]
  | h :: hs, es, shaped, ok => by
    rw [walkAll, List.forall_mem_append] at shaped
    obtain ⟨e, he, ok⟩ := bind_eq_ok.mp ok
    obtain ⟨rest, hrest, ⟨⟩⟩ := bind_eq_ok.mp ok
    rw [Expr.walkAll, List.forall_mem_append]
    exact ⟨clean_of_toExpr shaped.1 he, clean_of_toExprs shaped.2 hrest⟩

end

/-- The text of a literal is told from its bytes. -/
theorem fromUTF8?_toUTF8 (text : String) : String.fromUTF8? text.toUTF8 = some text := by
  have valid : text.toUTF8.IsValidUTF8 := text.isValidUTF8
  rw [String.fromUTF8?, dif_pos valid]
  rfl

/-- The intervals of a class, put together to a set. -/
theorem mem_ofRanges_ends {ranges : List Interval} {x : Char} :
    x ∈ CharSet.ofRanges (ranges.map fun r => (r.lo, r.hi)) ↔ ∃ r ∈ ranges, x ∈ r := by
  simp

/-- The ranges of a class of ASCII bytes, put together to a set. -/
theorem mem_ofRanges_bytes {ranges : List ByteRange} (ascii : ∀ r ∈ ranges, r.hi ≤ 0x7F)
    {x : Char} : x ∈ CharSet.ofRanges (ranges.map fun r => (.ofUInt8 r.lo, .ofUInt8 r.hi)) ↔
      (∃ r ∈ ranges, r.lo.toNat ≤ x.toNat ∧ x.toNat ≤ r.hi.toNat) ∧ x.toNat < 0x80 := by
  have member (r : ByteRange) : x ∈ Interval.between (.ofUInt8 r.lo) (.ofUInt8 r.hi) ↔
      r.lo.toNat ≤ x.toNat ∧ x.toNat ≤ r.hi.toNat := by
    have order : Char.ofUInt8 r.lo ≤ .ofUInt8 r.hi := r.lo_le_hi
    rw [Interval.between_of_le order]
    exact Iff.rfl
  simp only [CharSet.mem_ofRanges, List.mem_map, exists_exists_and_eq_and, member]
  constructor
  · rintro ⟨r, hr, above, below⟩
    have top : r.hi.toNat ≤ 0x7F := ascii r hr
    exact ⟨⟨r, hr, above, below⟩, by omega⟩
  · intro h
    exact h.1

mutual

/-- An expression matches what it has been made of. -/
theorem matches_of_toExpr : {h : Hir} → {e : Expr} → (∀ x ∈ h.walk, x.HasShape) →
    toExpr h = .ok e → e.Matches = h.Matches
  | empty, e, _, ok => by
    cases ok
    ext s t
    simp [Expr.Matches, Matches]
  | literal bytes, e, _, ok => by
    rw [toExpr] at ok
    split at ok
    · next text decoded =>
      cases ok
      ext s t
      simp [Expr.Matches, Matches, decoded]
    · cases ok
  | charClass ranges, e, _, ok => by
    cases ok
    ext s t
    simp [Expr.ofSet, Expr.Matches, Matches]
  | byteClass c, e, _, ok => by
    rw [toExpr] at ok
    split at ok
    · cases ok
    · next ascii =>
      cases ok
      have ascii : ∀ r ∈ c.ranges, r.hi ≤ 0x7F := by simpa using ascii
      ext s t
      simp [Expr.ofSet, Expr.Matches, Matches, mem_ofRanges_bytes ascii, and_assoc]
  | look l, e, _, ok => by cases ok
  | repetition body min max greedy, e, shaped, ok => by
    rw [walk, List.forall_mem_cons] at shaped
    have ordered : ∀ m ∈ max, min ≤ m := shaped.1
    rw [toExpr] at ok
    split at ok
    · next none =>
      -- The bounds are in order, so nothing is repeated no times.
      subst none
      cases ok
      have zero : min = 0 := Nat.le_zero.mp (ordered 0 rfl)
      ext s t
      simp [Expr.Matches, Matches, zero, Iterate]
    · obtain ⟨b, hb, ⟨⟩⟩ := bind_eq_ok.mp ok
      ext s t
      rw [Expr.Matches, Matches, matches_of_toExpr shaped.2 hb]
  | capture index name body, e, shaped, ok => by
    rw [walk, List.forall_mem_cons] at shaped
    ext s t
    rw [Matches, matches_of_toExpr (h := body) shaped.2 ok]
  | concat items, e, shaped, ok => by
    rw [walk, List.forall_mem_cons] at shaped
    obtain ⟨es, hes, ⟨⟩⟩ := bind_eq_ok.mp ok
    ext s t
    rw [Expr.Matches, Matches, (matches_of_toExprs shaped.2 hes).1]
  | alternation branches, e, shaped, ok => by
    rw [walk, List.forall_mem_cons] at shaped
    obtain ⟨es, hes, ⟨⟩⟩ := bind_eq_ok.mp ok
    ext s t
    rw [Expr.Matches, Matches, (matches_of_toExprs shaped.2 hes).2]

theorem matches_of_toExprs : {hs : List Hir} → {es : List Expr} →
    (∀ x ∈ walkAll hs, x.HasShape) → toExprs hs = .ok es →
    Expr.MatchesInTurn es = MatchesInTurn hs ∧ Expr.MatchesAny es = MatchesAny hs
  | [], es, _, ok => by
    cases ok
    constructor
    · ext s t
      rw [Expr.MatchesInTurn, MatchesInTurn]
    · ext s t
      rw [Expr.MatchesAny, MatchesAny]
  | h :: hs, es, shaped, ok => by
    rw [walkAll, List.forall_mem_append] at shaped
    obtain ⟨e, he, ok⟩ := bind_eq_ok.mp ok
    obtain ⟨rest, hrest, ⟨⟩⟩ := bind_eq_ok.mp ok
    have first := matches_of_toExpr shaped.1 he
    obtain ⟨inTurn, any⟩ := matches_of_toExprs shaped.2 hrest
    constructor
    · ext s t
      rw [Expr.MatchesInTurn, MatchesInTurn, first, inTurn]
    · ext s t
      rw [Expr.MatchesAny, MatchesAny, first, any]

end

mutual

/-- What speaks of text only and asks for no place has an expression. -/
theorem exists_toExpr : {h : Hir} → (∀ x ∈ h.walk, x.IsText) →
    (∀ x ∈ h.walk, x.isLook = false) → ∃ e, toExpr h = .ok e
  | empty, _, _ => ⟨_, rfl⟩
  | literal bytes, text, _ => by
    have valid : bytes.IsValidUTF8 := text (literal bytes) (by simp [walk])
    rw [toExpr, String.fromUTF8?, dif_pos valid]
    exact ⟨_, rfl⟩
  | charClass ranges, _, _ => ⟨_, rfl⟩
  | byteClass c, text, _ => by
    have ascii : ∀ r ∈ c.ranges, r.hi ≤ 0x7F := text (byteClass c) (by simp [walk])
    have inside : ¬ (c.ranges.any fun r => 0x7F < r.hi) = true := by simpa using ascii
    rw [toExpr, if_neg inside]
    exact ⟨_, rfl⟩
  | look l, _, noLook => by cases noLook (look l) (by simp [walk])
  | repetition body min max greedy, text, noLook => by
    rw [walk, List.forall_mem_cons] at text noLook
    rw [toExpr]
    split
    · exact ⟨_, rfl⟩
    · obtain ⟨b, ok⟩ := exists_toExpr text.2 noLook.2
      rw [ok]
      exact ⟨_, rfl⟩
  | capture index name body, text, noLook => by
    rw [walk, List.forall_mem_cons] at text noLook
    exact exists_toExpr (h := body) text.2 noLook.2
  | concat items, text, noLook => by
    rw [walk, List.forall_mem_cons] at text noLook
    obtain ⟨es, ok⟩ := exists_toExprs text.2 noLook.2
    rw [toExpr, ok]
    exact ⟨_, rfl⟩
  | alternation branches, text, noLook => by
    rw [walk, List.forall_mem_cons] at text noLook
    obtain ⟨es, ok⟩ := exists_toExprs text.2 noLook.2
    rw [toExpr, ok]
    exact ⟨_, rfl⟩

theorem exists_toExprs : {hs : List Hir} → (∀ x ∈ walkAll hs, x.IsText) →
    (∀ x ∈ walkAll hs, x.isLook = false) → ∃ es, toExprs hs = .ok es
  | [], _, _ => ⟨[], rfl⟩
  | h :: hs, text, noLook => by
    rw [walkAll, List.forall_mem_append] at text noLook
    obtain ⟨e, ok⟩ := exists_toExpr text.1 noLook.1
    obtain ⟨es, oks⟩ := exists_toExprs text.2 noLook.2
    rw [toExprs, ok, oks]
    exact ⟨_, rfl⟩

end

end Hir

end Pattern

end PatternAutomata
