import PatternAutomata.Proofs.ParsedRegexes
import PatternAutomata.Proofs.Spelling

/-!
# Patterns that are a class

A class on its own is read as the literal of its only character, or as the set of its characters
(`toExpr_of_standsFor`). A set of characters, as it is written, is such a pattern, so it is read as
itself (`parse_charSet`).
-/
namespace PatternAutomata

open Pattern

namespace Expr

/-- One character of a set, as a literal if there is only one. -/
def oneOf (s : CharSet) : Expr :=
  match s.single? with
  | some c => .literal [c]
  | none => .ofSet s

variable {s : CharSet}

theorem oneOf_eq_literal_iff {c : Char} : oneOf s = .literal [c] ↔ ∀ d, d ∈ s ↔ d = c := by
  rw [← CharSet.single?_eq_some_iff, oneOf]
  cases s.single? <;> simp [ofSet]

theorem oneOf_eq_ofSet_iff : oneOf s = .ofSet s ↔ ¬ ∃ c, ∀ d, d ∈ s ↔ d = c := by
  simp only [← CharSet.single?_eq_some_iff, oneOf]
  cases s.single? <;> simp [ofSet]

/-- One character of a set is matched by the expression for it. -/
theorem matches_oneOf (s : CharSet) (u t : List Char) :
    (oneOf s).Matches u t ↔ ∃ c ∈ s, u = c :: t := by
  unfold oneOf
  cases single : s.single? with
  | none => exact Iff.rfl
  | some c =>
    have only := CharSet.single?_eq_some_iff.mp single
    simp [Matches, only]

/-- Whatever becomes of a class, the expression for it is one character of the class. -/
theorem toExpr_of_standsFor {h : Hir} (stands : h.StandsFor s) : h.toExpr = .ok (oneOf s) := by
  cases stands with
  | one c =>
    have one : oneOf (.single c) = .literal [c] :=
      oneOf_eq_literal_iff.mpr fun d => CharSet.mem_single
    have text : c.toString.toList = [c] := by simp
    rw [one, Hir.toExpr, Hir.fromUTF8?_toUTF8]
    exact congrArg (fun cs => Except.ok (literal cs)) text
  | none shown =>
    have nothing : CharSet.ofRanges [] = ∅ := by simp [CharSet.ofRanges, CharSet.ofIntervals]
    rw [Hir.toExpr]
    exact congrArg (fun t => Except.ok (ofSet t)) nothing
  | several several same =>
    obtain ⟨c, hc, d, hd, different⟩ := several
    have many : oneOf s = .ofSet s := by
      apply oneOf_eq_ofSet_iff.mpr
      rintro ⟨x, only⟩
      exact different (((only c).mp hc).trans ((only d).mp hd).symm)
    have set : CharSet.ofRanges _ = s :=
      CharSet.ext_mem fun x => Hir.mem_ofRanges_ends.trans (same x)
    rw [many, Hir.toExpr, set]
    rfl

variable {Fault : Type} {P : Parser Fault} {U : Tables}

/-- A set of characters is read from its notation as the literal of its only character, or as the
set that it is. -/
theorem parse_charSet (classes : P.ReadsClasses U) (s : CharSet) :
    (∀ c, parse P s.render = .ok (.literal [c]) ↔ ∀ d, d ∈ s ↔ d = c) ∧
      (parse P s.render = .ok (.ofSet s) ↔ ¬ ∃ c, ∀ d, d ∈ s ↔ d = c) := by
  obtain ⟨n, written⟩ := writesClass_render (U := U) s
  obtain ⟨h, read, stands⟩ := classes s.render n s written
  have parsed : parse P s.render = .ok (oneOf s) := by
    rw [parse_of_ok read, toExpr_of_standsFor stands]
    rfl
  rw [parsed]
  refine ⟨fun c => ?_, ?_⟩
  · rw [Except.ok.injEq, oneOf_eq_literal_iff]
  · rw [Except.ok.injEq, oneOf_eq_ofSet_iff]

/-- Brackets and the characters around the surrogates are read as they are. -/
theorem parse_charSet_standard : Parser.standard.ReadsClasses .standard ∧
    parse .standard (CharSet.single ']').render = .ok (.literal [']']) ∧
      parse .standard (CharSet.range '\uD7FF' '\uE000').render =
        .ok (.ofSet (.range '\uD7FF' '\uE000')) ∧
      parse .standard (∅ : CharSet).render = .ok (.ofSet ∅) := by
  have classes := Parser.readsClasses_standard
  refine ⟨classes, ?_, ?_, ?_⟩
  · exact ((parse_charSet classes (.single ']')).1 ']').mpr fun d => CharSet.mem_single
  · apply (parse_charSet classes (.range '\uD7FF' '\uE000')).2.mpr
    rintro ⟨c, only⟩
    have first : '\uD7FF' = c := (only _).mp (by decide)
    have last : '\uE000' = c := (only _).mp (by decide)
    exact absurd (first.trans last.symm) (by decide)
  · apply (parse_charSet classes ∅).2.mpr
    rintro ⟨c, only⟩
    exact CharSet.not_mem_empty ((only c).mpr rfl)

end Expr

end PatternAutomata
