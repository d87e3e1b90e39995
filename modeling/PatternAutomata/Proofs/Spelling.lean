import PatternAutomata.Expr.Printer
import PatternAutomata.Proofs.FixedClasses

/-!
# Expressions are written by the rules

Characters, classes and bounds are written by the rules, and so is every expression made of them:
what the rules say its notation matches is what the expression matches, and there is a lookahead in
the notation if there is one in the expression (`spelled_render`).
-/
namespace PatternAutomata

open Pattern Relation

theorem writesChar_patternChar (c : Char) : WritesChar (patternChar c).toList c := by
  unfold patternChar
  split
  · have text : ("\\x\x7b" ++ hexadecimal true c ++ "\x7d").toList =
        '\\' :: 'x' :: '{' :: (hexadecimal true c).toList ++ ['}'] := by simp
    rw [text]
    exact .code c
  · split
    · next special =>
      rw [String.toList_ofList]
      exact .escaped special
    · next plain =>
      have text : c.toString.toList = [c] := by simp
      rw [text]
      exact .plain plain

theorem writesInterval_render (i : Interval) : WritesInterval i.render.toList i := by
  unfold Interval.render
  split
  · next one =>
    rw [Interval.eq_single one]
    exact .char (writesChar_patternChar i.lo)
  · have text : (patternChar i.lo ++ "-" ++ patternChar i.hi).toList =
        (patternChar i.lo).toList ++ '-' :: (patternChar i.hi).toList := by simp
    rw [text]
    exact .range (writesChar_patternChar i.lo) (writesChar_patternChar i.hi)

section
variable {U : Tables}

theorem writesItem_render (i : Interval) : WritesItem U i.render.toList (.range i.lo i.hi) :=
  .interval (writesInterval_render i)

/-- Several intervals side by side. -/
theorem writesItems_render (i : Interval) (is : List Interval) : ∃ s,
    WritesItems U ((i :: is).flatMap fun i => i.render.toList) (is.length + 1) s ∧
      ∀ c, c ∈ s ↔ ∃ i' ∈ i :: is, c ∈ i' := by
  induction is generalizing i with
  | nil =>
    refine ⟨.range i.lo i.hi, ?_, ?_⟩
    · have written : WritesItems U i.render.toList 1 _ := .one (writesItem_render i)
      simpa using written
    · simp [CharSet.mem_range_iff]
  | cons j is ih =>
    obtain ⟨t, others, members⟩ := ih j
    refine ⟨.range i.lo i.hi ∪ t, .more (writesItem_render i) others, ?_⟩
    intro c
    simp [members, CharSet.mem_range_iff]

/-- No character is written as what is left of all of them. -/
theorem writesClass_empty : WritesClass U "[^\\x\x7b0\x7d-\\x\x7b10FFFF\x7d]".toList 1 ∅ := by
  let i : Interval := ⟨'\x00', Char.ofNat 0x10FFFF, by decide⟩
  have lo : (hexadecimal true i.lo).toList = ['0'] := by
    rw [hexadecimal, String.toList_ofList]
    decide
  have hi : (hexadecimal true i.hi).toList = ['1', '0', 'F', 'F', 'F', 'F'] := by
    rw [hexadecimal, String.toList_ofList]
    decide
  have written := WritesClass.outside (U := U) (.range (.code i.lo) (.code i.hi))
  have none : (CharSet.range i.lo i.hi).negate = ∅ := by
    apply CharSet.ext_mem
    intro c
    rw [CharSet.mem_negate]
    exact iff_of_false (not_not_intro (CharSet.mem_any c)) CharSet.not_mem_empty
  rw [none, lo, hi] at written
  exact written

theorem writesClass_render (s : CharSet) : ∃ n, WritesClass U s.render.toList n s := by
  obtain ⟨intervals, separated⟩ := s
  unfold CharSet.render
  cases intervals with
  | nil => exact ⟨1, writesClass_empty⟩
  | cons i is =>
    obtain ⟨t, written, members⟩ := writesItems_render (U := U) i is
    have same : t = ⟨i :: is, separated⟩ := CharSet.ext_mem members
    have text : ("[" ++ String.join ((i :: is).map Interval.render) ++ "]").toList =
        '[' :: (i :: is).flatMap (fun i => i.render.toList) ++ [']'] := by
      simp [String.toList_join, List.flatMap_map]
    rw [CharSet.isEmpty, List.isEmpty_cons, if_neg Bool.false_ne_true, text, ← same]
    exact ⟨_, .bracketed written⟩

end

theorem writesBounds_render {min : Nat} {max : Option Nat} (small : min < UInt32.size)
    (small' : ∀ m ∈ max, m < UInt32.size) (ordered : ∀ m ∈ max, min ≤ m) :
    WritesBounds (Expr.bounds min max).toList min max := by
  unfold Expr.bounds
  split
  · exact .star
  · exact .plus
  · exact .opt
  · have text : ("\x7b" ++ toString min ++ ",\x7d").toList =
        '{' :: Nat.toDigits 10 min ++ [',', '}'] := by simp
    rw [text]
    exact .atLeast small
  · next m _ =>
    split
    · next same =>
      have text : ("\x7b" ++ toString min ++ "\x7d").toList =
          '{' :: Nat.toDigits 10 min ++ ['}'] := by simp
      rw [text, ← same]
      exact .exact small
    · have text : ("\x7b" ++ toString min ++ "," ++ toString m ++ "\x7d").toList =
          '{' :: Nat.toDigits 10 min ++ ',' :: Nat.toDigits 10 m ++ ['}'] := by simp
      rw [text]
      exact .between (small' m rfl) (ordered m rfl)

namespace Pattern

/-- The text is written by the rules, nested to whatever depths. -/
def Writes (U : Tables) (role : Role) (text : List Char) (ahead : Bool)
    (R : List Char → List Char → Prop) : Prop :=
  ∃ ns, Written U role text ns ahead R

namespace Writes

variable {U : Tables} {text text' : List Char} {ahead ahead' : Bool}
  {R S : List Char → List Char → Prop}

theorem char (c : Char) : Writes U .part (patternChar c).toList false fun s t => s = c :: t :=
  ⟨_, .char (writesChar_patternChar c)⟩

theorem group (h : Writes U .pattern text ahead R) :
    Writes U .part ('(' :: '?' :: ':' :: text ++ [')']) ahead R := by
  obtain ⟨ns, written⟩ := h
  exact ⟨_, written.group⟩

theorem alone (h : Writes U .part text ahead R) : Writes U .branch text ahead R := by
  obtain ⟨ns, written⟩ := h
  exact ⟨_, written.alone⟩

theorem times (h : Writes U .part text ahead R) {bounds : List Char} {min : Nat} {max : Option Nat}
    (b : WritesBounds bounds min max) :
    Writes U .branch (text ++ bounds) ahead (Times R min max) := by
  obtain ⟨ns, written⟩ := h
  have one : ∃ n, ns = [n] := by
    cases written <;> exact ⟨_, rfl⟩
  obtain ⟨n, rfl⟩ := one
  exact ⟨_, written.repeated b⟩

theorem append (h : Writes U .branch text ahead R) (h' : Writes U .branch text' ahead' S) :
    Writes U .branch (text ++ text') (ahead || ahead') (Comp R S) := by
  obtain ⟨ns, written⟩ := h
  obtain ⟨ns', written'⟩ := h'
  exact ⟨_, written.append written'⟩

theorem pattern (h : Writes U .branch text ahead R) : Writes U .pattern text ahead R := by
  obtain ⟨ns, written⟩ := h
  exact ⟨_, written.branch⟩

theorem or (h : Writes U .pattern text ahead R) (h' : Writes U .pattern text' ahead' S) :
    Writes U .pattern (text ++ '|' :: text') (ahead || ahead') fun s t => R s t ∨ S s t := by
  obtain ⟨ns, written⟩ := h
  obtain ⟨ns', written'⟩ := h'
  exact ⟨_, written.or written'⟩

end Writes

end Pattern

namespace Expr

/-- Classes have no notation of their own or a fixed one, and bounds are numbers of 32 bits. -/
def Writable {Fault : Type} (P : Parser Fault) : Expr → Prop
  | charClass c => c.label = none ∨ charClass c ∈ fixedClasses P
  | repetition _ min max => min < UInt32.size ∧ ∀ m ∈ max, m < UInt32.size
  | _ => True

def isAlternatives : Expr → Bool
  | alternatives _ => true
  | _ => false

theorem toList_group (text : String) :
    (group text).toList = '(' :: '?' :: ':' :: text.toList ++ [')'] := by
  simp [group]

/-- An expression as it is written in a sequence. -/
def renderItem (e : Expr) : String := if e.isAlternatives then group e.render else e.render

theorem renderSequence_cons (e : Expr) (es : List Expr) :
    renderSequence (e :: es) = e.renderItem ++ renderSequence es := by
  cases e <;> simp [renderSequence, render, renderItem, isAlternatives]

theorem toList_renderAll_cons (e e' : Expr) (es : List Expr) :
    ("|".intercalate (renderAll (e :: e' :: es))).toList =
      e.render.toList ++ '|' :: ("|".intercalate (renderAll (e' :: es))).toList := by
  simp [renderAll, String.intercalate_cons_of_ne_nil]

theorem any_walkAll_cons (e : Expr) (es : List Expr) : (walkAll (e :: es)).any isLookahead =
    (e.hasLookahead || (walkAll es).any isLookahead) := by
  rw [walkAll, List.any_append, hasLookahead]

theorem matches_literal (text : List Char) :
    (literal text).Matches = fun s t => s = text ++ t := by
  ext s t
  rw [Matches]

variable {U : Tables}

theorem writes_group {text : String} {ahead : Bool} {R : List Char → List Char → Prop}
    (h : Writes U .pattern text.toList ahead R) : Writes U .part (group text).toList ahead R := by
  rw [toList_group]
  exact h.group

theorem writes_literal (text : List Char) :
    Writes U .branch (String.join (text.map patternChar)).toList false (literal text).Matches := by
  rw [matches_literal]
  induction text with
  | nil => exact ⟨[], .nothing⟩
  | cons c cs ih =>
    have both := (Writes.char c).alone.append ih
    have relation : (Comp (fun s t => s = c :: t) fun s t => s = cs ++ t) =
        fun s t => s = c :: cs ++ t := by
      ext s t
      simp [Comp]
    rw [relation] at both
    simpa [String.join_cons] using both

theorem writes_lookahead {body : Expr} {ahead : Bool} (negated : Bool)
    (h : Writes U .pattern body.render.toList ahead body.Matches) :
    Writes U .part (lookahead body negated).render.toList true
      (lookahead body negated).Matches := by
  obtain ⟨ns, written⟩ := h
  have relation : (lookahead body negated).Matches =
      fun s t => s = t ∧ ((∃ u, body.Matches s u) ↔ negated = false) := by
    ext s t
    rw [Matches]
  have text : (lookahead body negated).render.toList =
      '(' :: '?' :: (if negated then '!' else '=') :: body.render.toList ++ [')'] := by
    cases negated <;> simp [render]
  rw [relation, text]
  exact ⟨_, written.lookahead negated⟩

theorem writes_renderItem {e : Expr} {ahead : Bool} {R : List Char → List Char → Prop}
    (h : Writes U .pattern e.render.toList ahead R)
    (alone : e.isAlternatives = false → Writes U .branch e.render.toList ahead R) :
    Writes U .branch e.renderItem.toList ahead R := by
  unfold renderItem
  split
  · exact (writes_group h).alone
  · next single => exact alone (by simpa using single)

/-- The expression is written by the rules, in each role that its notation can have. -/
structure Spelled (U : Tables) (e : Expr) : Prop where
  pattern : Writes U .pattern e.render.toList e.hasLookahead e.Matches
  branch : e.isAlternatives = false → Writes U .branch e.render.toList e.hasLookahead e.Matches
  part : e.isAtom = true → Writes U .part e.render.toList e.hasLookahead e.Matches

theorem Spelled.of_branch {e : Expr}
    (h : Writes U .branch e.render.toList e.hasLookahead e.Matches)
    (atom : e.isAtom = true → Writes U .part e.render.toList e.hasLookahead e.Matches) :
    Spelled U e :=
  ⟨h.pattern, fun _ => h, atom⟩

theorem Spelled.of_part {e : Expr} (h : Writes U .part e.render.toList e.hasLookahead e.Matches) :
    Spelled U e :=
  .of_branch h.alone fun _ => h

/-- What can be written: classes are written by the rules, and bounds are numbers of 32 bits. -/
def Legible (U : Tables) : Expr → Prop
  | charClass c =>
    Writes U .part (charClass c).render.toList false fun s t => ∃ x ∈ c.chars, s = x :: t
  | repetition _ min max => min < UInt32.size ∧ ∀ m ∈ max, m < UInt32.size
  | _ => True

/-- Nothing and something take up a part each, and several characters a branch. -/
theorem spelled_literal (text : List Char) : Spelled U (literal text) := by
  cases text with
  | nil =>
    have nothing : (literal []).Matches = (· = ·) := matches_literal []
    have written : (literal []).render = group "" := by rw [render]
    have inside : Writes U .pattern "".toList false (· = ·) := ⟨_, .branch .nothing⟩
    refine .of_branch ?_ nofun
    rw [nothing, written]
    exact (writes_group inside).alone
  | cons c cs =>
    have written : (literal (c :: cs)).render = String.join ((c :: cs).map patternChar) := by
      simp [render]
    refine .of_branch ?_ fun atom => ?_
    · rw [written]
      exact writes_literal (c :: cs)
    · obtain ⟨d, one⟩ := List.length_eq_one_iff.mp (eq_of_beq atom)
      have text : (literal [d]).render = patternChar d := by simp [render, String.join]
      rw [one, text, matches_literal]
      exact .char d

mutual

/-- An expression whose parts are well-formed and can be written is written by the rules. -/
theorem spelled_render : (e : Expr) → (∀ x ∈ e.walk, x.ownFault? = none ∧ x.Legible U) →
    Spelled U e
  | charClass c, h => by
    have relation : (charClass c).Matches = fun s t => ∃ x ∈ c.chars, s = x :: t := by
      ext s t
      rw [Matches]
    refine .of_part ?_
    rw [relation]
    exact (h (charClass c) (by simp [walk])).2
  | literal text, _ => spelled_literal text
  | sequence items, h => by
    rw [walk, List.forall_mem_cons] at h
    have relation : (sequence items).Matches = MatchesInTurn items := by
      ext s t
      rw [Matches]
    have branch := writes_renderSequence items h.2
    refine .of_branch ?_ nofun
    rw [relation, render]
    exact branch
  | alternatives items, h => by
    rw [walk, List.forall_mem_cons] at h
    have some : items ≠ [] := by
      rintro rfl
      cases h.1.1
    have relation : (alternatives items).Matches = MatchesAny items := by
      ext s t
      rw [Matches]
    refine ⟨?_, nofun, nofun⟩
    rw [relation, render]
    exact writes_renderAll items some h.2
  | repetition body min max, h => by
    rw [walk, List.forall_mem_cons] at h
    obtain ⟨⟨own, small, small'⟩, inside⟩ := h
    have ordered := (bounds_of_ownFault? own).2
    have spelled := spelled_render body inside
    have part : Writes U .part (if body.isAtom then render body else group (render body)).toList
        body.hasLookahead body.Matches := by
      split
      · next atom => exact spelled.part atom
      · exact writes_group spelled.pattern
    have relation : (repetition body min max).Matches = Times body.Matches min max := by
      ext s t
      rw [Matches, Times]
    refine .of_branch ?_ nofun
    rw [relation, render, String.toList_append]
    exact part.times (writesBounds_render small small' ordered)
  | lookahead body negated, h => by
    rw [walk, List.forall_mem_cons] at h
    exact .of_part (writes_lookahead negated (spelled_render body h.2).pattern)

theorem writes_renderSequence : (es : List Expr) →
    (∀ x ∈ walkAll es, x.ownFault? = none ∧ x.Legible U) →
    Writes U .branch (renderSequence es).toList ((walkAll es).any isLookahead) (MatchesInTurn es)
  | [], _ => by
    have nothing : MatchesInTurn [] = (· = ·) := by
      ext s t
      rw [MatchesInTurn]
    rw [nothing]
    exact ⟨[], .nothing⟩
  | e :: es, h => by
    rw [walkAll, List.forall_mem_append] at h
    have spelled := spelled_render e h.1
    have relation : MatchesInTurn (e :: es) = Comp e.Matches (MatchesInTurn es) := by
      ext s t
      rw [MatchesInTurn, Comp]
    rw [relation, renderSequence_cons, String.toList_append, any_walkAll_cons]
    exact (writes_renderItem spelled.pattern spelled.branch).append
      (writes_renderSequence es h.2)

theorem writes_renderAll : (es : List Expr) → es ≠ [] →
    (∀ x ∈ walkAll es, x.ownFault? = none ∧ x.Legible U) →
    Writes U .pattern ("|".intercalate (renderAll es)).toList ((walkAll es).any isLookahead)
      (MatchesAny es)
  | [], nonempty, _ => absurd rfl nonempty
  | [e], _, h => by
    rw [walkAll, walkAll, List.append_nil] at h
    have relation : MatchesAny [e] = e.Matches := by
      ext s t
      simp [MatchesAny]
    rw [relation, renderAll, renderAll, String.intercalate_singleton, walkAll, walkAll,
      List.append_nil]
    exact (spelled_render e h).pattern
  | e :: e' :: es, _, h => by
    rw [walkAll, List.forall_mem_append] at h
    have relation : MatchesAny (e :: e' :: es) =
        fun s t => e.Matches s t ∨ MatchesAny (e' :: es) s t := by
      ext s t
      rw [MatchesAny]
    rw [relation, toList_renderAll_cons, any_walkAll_cons]
    exact (spelled_render e h.1).pattern.or (writes_renderAll (e' :: es) (by simp) h.2)

end

/-- An expression is written by the rules if its classes have no notation of their own or one that
is fixed, and its bounds are numbers of 32 bits. -/
theorem Writable.legible {Fault : Type} {P : Parser Fault} (classes : P.ReadsClasses U)
    (several : U.Several) {e : Expr} (h : e.Writable P) : e.Legible U := by
  cases e with
  | charClass c =>
    have written : ∃ n, WritesClass U (charClass c).render.toList n c.chars := by
      rcases h with none | fixed
      · have text : (charClass c).render = c.chars.render := by simp [render, none]
        rw [text]
        exact writesClass_render c.chars
      · obtain ⟨label, given, written⟩ := writesClass_of_mem_fixedClasses classes several fixed
        have text : (charClass c).render = label := by simp [render, given]
        rwa [text]
    obtain ⟨n, written⟩ := written
    exact ⟨_, .set written⟩
  | repetition body min max => exact h
  | _ => trivial

end Expr

end PatternAutomata
