import PatternAutomata.Proofs.ParsedRegexes
import PatternAutomata.Proofs.Spelling
import PatternAutomata.Proofs.StandardTables

/-!
# Reading what is written

An expression is written by the rules, so a parser that reads patterns by them reads it as an
expression that matches the same. If it has a lookahead, then there is one in its notation, and such
a pattern is refused (`parse_render`).
-/
namespace PatternAutomata

open Pattern

namespace Expr

theorem matchesBetween_congr {e e' : Expr} (same : e'.Matches = e.Matches) {input : Input}
    (valid : input.isValid = true) (j : Nat) :
    e'.MatchesBetween input.text input.span.stop input.span.start j ↔
      e.MatchesBetween input.text input.span.stop input.span.start j := by
  obtain ⟨window, hw⟩ := Option.isSome_iff_exists.mp valid
  rw [Input.matchesBetween_span hw, Input.matchesBetween_span hw, same]

section

variable {Fault : Type} {P : Parser Fault} {U : Tables}

/-- An expression that can be compiled and has no lookahead is read from its notation as an
expression that matches the same, unless the notation is nested too deeply. With a lookahead its
notation is refused. -/
theorem parse_render (shaped : P.Shaped) (textual : P.Textual) (classes : P.ReadsClasses U)
    (several : U.Several) (patterns : P.ReadsPatterns U) (refuses : P.RefusesLookahead U) {e : Expr}
    {mode : Mode} {r : Regex} (ok : Regex.ofExpr e mode = .ok r)
    (writable : ∀ x ∈ e.walk, x.Writable P) :
    (e.hasLookahead = false → WithinNesting U e.render → ∃ e', parse P e.render = .ok e' ∧
      ∀ input : Input, input.isValid = true → ∀ j,
        e'.MatchesBetween input.text input.span.stop input.span.start j ↔
          e.MatchesBetween input.text input.span.stop input.span.start j) ∧
    (e.hasLookahead = true → ∃ fault, parse P e.render = .error (.unreadable fault)) := by
  have sound := wellFormed_of_fault? (Regex.fault?_of_ofExpr ok)
  have spelled : Spelled U e :=
    spelled_render e fun x hx => ⟨sound x hx, (writable x hx).legible classes several⟩
  obtain ⟨ns, written⟩ := spelled.pattern
  constructor
  · intro noLookahead nesting
    rw [noLookahead] at written
    obtain ⟨e', parsed, same⟩ := exists_parse shaped textual patterns written (nesting ns _ written)
    exact ⟨e', parsed, fun input valid j => matchesBetween_congr same valid j⟩
  · intro lookahead
    rw [lookahead] at written
    obtain ⟨fault, refused⟩ := refuses e.render ns _ written
    exact ⟨fault, parse_of_error refused⟩

end

/-- Letters `a` and decimal digits in any number. -/
def lettersAndDigits : Expr := .star (.alternatives [.literal ['a'], .digit .standard])

theorem withinNesting_lettersAndDigits : WithinNesting .standard lettersAndDigits.render := by
  have char : patternChar 'a' = "a" := by cbv
  have text : lettersAndDigits.render.toList =
      '(' :: '?' :: ':' :: (['a'] ++ '|' :: ['\\', 'd']) ++ [')'] ++ ['*'] := by
    simp [lettersAndDigits, star, digit, named, render, renderAll, isAtom, group, char, bounds]
  have letter : Written .standard .part ['a'] [0] false _ := .char (.plain (by decide))
  have digit : Written .standard .part ['\\', 'd'] [0] false _ :=
    .set (.escape (.shorthand .digit))
  have written := ((letter.alone.branch.or digit.alone.branch).group.repeated .star).branch
  rw [← text] at written
  exact written.withinNesting (by decide)

theorem parse_render_lettersAndDigits :
    (∃ e, parse .standard lettersAndDigits.render = .ok e ∧
      ∀ input : Input, input.isValid = true → ∀ j,
        e.MatchesBetween input.text input.span.stop input.span.start j ↔
          lettersAndDigits.MatchesBetween input.text input.span.stop input.span.start j) ∧
    ∃ fault, parse .standard Regex.lettersBefore.render = .error (.unreadable fault) := by
  have compiled {e : Expr} (sound : e.fault? = none) : ∃ r, Regex.ofExpr e .minimal = .ok r := by
    obtain ⟨g, i, ok, -, -⟩ := Regex.ofExpr_eq sound .minimal
    exact ⟨_, ok⟩
  constructor
  · obtain ⟨r, ok⟩ := compiled (e := lettersAndDigits) (by decide)
    have writable : ∀ x ∈ lettersAndDigits.walk, x.Writable .standard := by
      simp [lettersAndDigits, star, digit, named, walk, walkAll, Writable, fixedClasses]
    exact (parse_render Parser.shaped_standard Parser.textual_standard
      Parser.readsClasses_standard Tables.several_standard Parser.readsPatterns_standard
      Parser.refusesLookahead_standard ok writable).1 (by decide) withinNesting_lettersAndDigits
  · obtain ⟨r, ok⟩ := compiled (e := Regex.lettersBefore) (by decide)
    have small : 1 < UInt32.size := by decide
    have writable : ∀ x ∈ Regex.lettersBefore.walk, x.Writable .standard := by
      simp [Regex.lettersBefore, plus, walk, walkAll, Writable, small]
    exact (parse_render Parser.shaped_standard Parser.textual_standard
      Parser.readsClasses_standard Tables.several_standard Parser.readsPatterns_standard
      Parser.refusesLookahead_standard ok writable).2 (by decide)

end Expr

end PatternAutomata
