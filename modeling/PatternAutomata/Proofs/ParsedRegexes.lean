import PatternAutomata.Proofs.Regexes
import PatternAutomata.Proofs.StandardParser

/-!
# Regular expressions from patterns

As long as the parser keeps to the shapes that it promises, what is made of a pattern can be
compiled. So a pattern fails only if the parser refuses it or gives back what no expression stands
for, and a search with what is made of it cannot fail (`ofPattern_total`).
-/
namespace PatternAutomata

open Pattern

variable {Fault : Type} {P : Parser Fault} {U : Tables} {text : String}

namespace Expr

variable {options : Options} {e : Expr}

theorem parse_of_ok {h : Hir} (read : P.parse options text = .ok h) :
    parse P text options = h.toExpr.mapError .unsupported := by
  unfold parse
  rw [read]
  rfl

theorem parse_of_error {fault : Fault} (failed : P.parse options text = .error fault) :
    parse P text options = .error (.unreadable fault) := by
  unfold parse
  rw [failed]
  rfl

/-- An expression that is made of a pattern is made of what the parser gives back. -/
theorem exists_of_parse (ok : parse P text options = .ok e) :
    ∃ h, P.parse options text = .ok h ∧ h.toExpr = .ok e := by
  cases read : P.parse options text with
  | error fault =>
    rw [parse_of_error read] at ok
    cases ok
  | ok h =>
    rw [parse_of_ok read] at ok
    cases made : h.toExpr with
    | error what =>
      rw [made] at ok
      cases ok
    | ok e' =>
      rw [made] at ok
      cases ok
      exact ⟨h, rfl, made⟩

/-- An expression that is made of a pattern has no malformed part and no lookahead. -/
theorem clean_of_parse (shaped : P.Shaped) (ok : parse P text options = .ok e) :
    ∀ x ∈ e.walk, x.Clean := by
  obtain ⟨h, read, made⟩ := exists_of_parse ok
  exact Hir.clean_of_toExpr (shaped _ _ h read) made

theorem fault?_of_parse (shaped : P.Shaped) (ok : parse P text options = .ok e) :
    e.fault? = none := by
  refine List.findSome?_eq_none_iff.mpr ?_
  intro x hx
  exact (clean_of_parse shaped ok x hx).1

/-- With no malformed part and no lookahead, nothing is empty and all bounds are in order. -/
theorem shape_of_clean (clean : ∀ x ∈ e.walk, x.Clean) :
    e.hasLookahead = false ∧ .sequence [] ∉ e.walk ∧ .alternatives [] ∉ e.walk ∧
      ∀ body min max, .repetition body min max ∈ e.walk → max ≠ some 0 ∧ ∀ m ∈ max, min ≤ m := by
  refine ⟨?_, ?_, ?_, ?_⟩
  · apply List.any_eq_false.mpr
    intro x hx
    simp [(clean x hx).2]
  · intro inside
    cases (clean _ inside).1
  · intro inside
    cases (clean _ inside).1
  · intro body min max inside
    exact bounds_of_ownFault? (clean _ inside).1

/-- A pattern that is written by the rules becomes an expression that matches by them. -/
theorem exists_parse (shaped : P.Shaped) (textual : P.Textual) (patterns : P.ReadsPatterns U)
    {ns : List Nat} {R : List Char → List Char → Prop}
    (written : Written U .pattern text.toList ns false R) (le : levels ns ≤ nestingLimit) :
    ∃ e, parse P text = .ok e ∧ e.Matches = R := by
  obtain ⟨h, read, noLook, rfl⟩ := patterns text ns R written le
  obtain ⟨e, made⟩ := Hir.exists_toExpr (textual _ _ h read) noLook
  refine ⟨e, ?_, Hir.matches_of_toExpr (shaped _ _ h read) made⟩
  rw [parse_of_ok read, made]
  rfl

end Expr

namespace Regex

variable {config : Config}

theorem ofPattern_of_parse (shaped : P.Shaped) {e : Expr}
    (ok : Expr.parse P text config.toOptions = .ok e) :
    ∃ r, ofPattern P text config = .ok r ∧ ofExpr e config.mode = .ok r := by
  obtain ⟨g, i, compiled, -, -⟩ := ofExpr_eq (Expr.fault?_of_parse shaped ok) config.mode
  refine ⟨_, ?_, compiled⟩
  unfold ofPattern
  rw [ok]
  simp only [Except.mapError, bind, Except.bind]
  rw [compiled]

theorem ofPattern_of_error {fault : PatternError Fault}
    (failed : Expr.parse P text config.toOptions = .error fault) :
    ofPattern P text config = .error (.pattern fault) := by
  unfold ofPattern
  rw [failed]
  rfl

/-- A regular expression that is made of a pattern is made of an expression. -/
theorem exists_of_ofPattern (shaped : P.Shaped) {r : Regex}
    (ok : ofPattern P text config = .ok r) :
    ∃ e, Expr.parse P text config.toOptions = .ok e ∧ ofExpr e config.mode = .ok r := by
  cases read : Expr.parse P text config.toOptions with
  | error fault =>
    rw [ofPattern_of_error read] at ok
    cases ok
  | ok e =>
    obtain ⟨r', ok', compiled⟩ := ofPattern_of_parse shaped read
    cases ok'.symm.trans ok
    exact ⟨e, rfl, compiled⟩

/-- A pattern becomes a regular expression unless the parser refuses it or gives back what no
expression stands for. The expression that is made of it has no lookahead, nothing in it is empty
and all its bounds are in order. No search fails, whatever the text and the span. -/
theorem ofPattern_total (shaped : P.Shaped) (text : String) (config : Config) :
    ((∃ r, ofPattern P text config = .ok r) ∨
      (∃ fault, ofPattern P text config = .error (.pattern (.unreadable fault))) ∨
      ∃ what, ofPattern P text config = .error (.pattern (.unsupported what))) ∧
    (∀ e, Expr.parse P text config.toOptions = .ok e →
      e.hasLookahead = false ∧ .sequence [] ∉ e.walk ∧ .alternatives [] ∉ e.walk ∧
        ∀ body min max, .repetition body min max ∈ e.walk →
          max ≠ some 0 ∧ ∀ m ∈ max, min ≤ m) ∧
    ∀ r, ofPattern P text config = .ok r →
      (∀ subject, ∃ b, r.matches? subject = .ok b) ∧ ∀ input, ∃ m, r.find? input = .ok m := by
  refine ⟨?_, ?_, ?_⟩
  · cases read : Expr.parse P text config.toOptions with
    | ok e =>
      obtain ⟨r, ok, -⟩ := ofPattern_of_parse shaped read
      exact .inl ⟨r, ok⟩
    | error fault =>
      have failed := ofPattern_of_error read
      cases fault with
      | unreadable fault => exact .inr (.inl ⟨fault, failed⟩)
      | unsupported what => exact .inr (.inr ⟨what, failed⟩)
  · intro e read
    exact Expr.shape_of_clean (Expr.clean_of_parse shaped read)
  · intro r ok
    obtain ⟨e, -, compiled⟩ := exists_of_ofPattern shaped ok
    refine ⟨?_, exists_find? compiled⟩
    intro subject
    obtain ⟨b, matched, -⟩ := matches?_spec compiled subject
    exact ⟨b, matched⟩

/-- With the standard parser, digits in any number can be searched for. -/
theorem ofPattern_total_digits : Parser.standard.Shaped ∧
    ∃ r, ofPattern .standard "\\d*" = .ok r ∧
      (∀ subject, ∃ b, r.matches? subject = .ok b) ∧ ∀ input, ∃ m, r.find? input = .ok m := by
  have digit : Written .standard .part "\\d".toList [0] false _ :=
    .set (.escape (.shorthand .digit))
  have written : Written .standard .pattern "\\d*".toList _ false _ :=
    .branch (digit.repeated .star)
  obtain ⟨e, read, -⟩ := Expr.exists_parse Parser.shaped_standard Parser.textual_standard
    Parser.readsPatterns_standard written (by decide)
  have made : ∃ r, ofPattern .standard "\\d*" = .ok r ∧ ofExpr e .nfa = .ok r :=
    ofPattern_of_parse Parser.shaped_standard read
  obtain ⟨r, ok, -⟩ := made
  obtain ⟨-, -, searches⟩ := ofPattern_total Parser.shaped_standard "\\d*" {}
  exact ⟨Parser.shaped_standard, r, ok, searches r ok⟩

end Regex

end PatternAutomata
