import PatternAutomata.Proofs.Compiled
import PatternAutomata.Proofs.Find
import PatternAutomata.Proofs.Offsets
import PatternAutomata.Regex

/-!
# What regular expressions find

A search with a compiled expression cannot fail. In every mode it finds the last byte offset up to
which the expression matches, or the first one if that is asked for (`find?_ofExpr`).
-/
namespace PatternAutomata

namespace Input

variable {input : Input} {window : List Char}

/-- From the start of a span an expression matches what it matches in the window. -/
theorem matchesBetween_span (hw : input.window? = some window) (e : Expr) (j : Nat) :
    e.MatchesBetween input.text input.span.stop input.span.start j ↔
      ∃ n, (∃ v, e.Matches window v ∧ n + v.length = window.length) ∧
        j = input.span.start + byteSize (window.take n) := by
  obtain ⟨ends, size⟩ := endsAt_window hw
  have start : input.span.start = input.span.stop - byteSize window := by omega
  rw [start, Expr.matchesBetween_iff e ends, ← start]
  constructor
  · rintro ⟨v, matched, rfl⟩
    have suffix := Expr.Matches.suffix e window v matched
    have len : window.length - v.length + v.length = window.length :=
      Nat.sub_add_cancel suffix.length_le
    exact ⟨_, ⟨v, matched, len⟩, (offset_eq hw suffix len).symm⟩
  · rintro ⟨n, ⟨v, matched, len⟩, rfl⟩
    exact ⟨v, matched, offset_eq hw (Expr.Matches.suffix e window v matched) len⟩

/-- The end that is asked for, in characters of the window, tells the byte offset that is asked
for. -/
theorem isExtreme_span (hw : input.window? = some window) {e : Expr} {n : Option Nat}
    (extreme : IsExtreme input.earliest
      (fun n => ∃ v, e.Matches window v ∧ n + v.length = window.length) n) :
    IsExtreme input.earliest (e.MatchesBetween input.text input.span.stop input.span.start)
      (n.map fun n => input.span.start + byteSize (window.take n)) :=
  extreme.map (fun le => Nat.add_le_add_left (byteSize_take_le le) _) (matchesBetween_span hw e)

/-- What an expression matches from the start of a span lies inside the span. -/
theorem le_of_matchesBetween (valid : input.isValid = true) {e : Expr} {j : Nat}
    (h : e.MatchesBetween input.text input.span.stop input.span.start j) :
    input.span.start ≤ j ∧ j ≤ input.span.stop := by
  obtain ⟨window, hw⟩ := Option.isSome_iff_exists.mp valid
  obtain ⟨n, -, rfl⟩ := (matchesBetween_span hw e j).mp h
  obtain ⟨-, size⟩ := endsAt_window hw
  have part : byteSize (window.take n) + byteSize (window.drop n) = byteSize window := by
    rw [← byteSize_append, List.take_append_drop]
  omega

end Input

/-- A compiled automaton finds the last byte offset up to which its expression matches, or the first
one if that is asked for. -/
theorem Graph.find?_compile {e : Expr} {tag : Nat} {mode : Mode} {g : Automaton}
    (ok : compile tag mode e = .ok g) {input : Input} (valid : input.isValid = true) :
    ∃ found, g.find? mode input = .ok (found.map fun j => ⟨input.text, ⟨input.span.start, j⟩⟩) ∧
      IsExtreme input.earliest (e.MatchesBetween input.text input.span.stop input.span.start)
        found := by
  obtain ⟨g', i, ok', searchable, same⟩ := compile_spec (fault?_of_compile ok) tag mode
  cases ok.symm.trans ok'
  obtain ⟨window, hw⟩ := Option.isSome_iff_exists.mp valid
  have ready : (g.replace Nested.trial).Searchable Nested.Trial.run mode i :=
    searchable.replace (f := Nested.trial)
  obtain ⟨n, searched, extreme⟩ := ready.search input.earliest window
  refine ⟨n.map fun n => input.span.start + byteSize (window.take n), ?_, ?_⟩
  · rw [← Nested.ready_eq] at searched
    refine (find?_of_search hw searched).trans ?_
    cases n <;> rfl
  · have accepts (n : Nat) : (g.replace Nested.trial).Accepts Nested.Trial.run window n ↔
        ∃ v, e.Matches window v ∧ n + v.length = window.length :=
      accepts_replace.trans (accepts_iff_of_ends searchable.initial (same window))
    exact Input.isExtreme_span hw (extreme.congr accepts)

namespace Regex

open PatternAutomata.Graph

variable {e : Expr} {mode : Mode} {r : Regex}

theorem ofExpr_eq (h : e.fault? = none) (mode : Mode) : ∃ g i, ofExpr e mode = .ok ⟨g, mode⟩ ∧
    g.Searchable Nested.probe mode i ∧ ∀ u v, g.Ends Nested.probe i u v ↔ e.Matches u v := by
  obtain ⟨g, i, ok, searchable, same⟩ := compile_spec h 0 mode
  refine ⟨g, i, ?_, searchable, same⟩
  unfold ofExpr
  rw [ok]
  rfl

theorem compile_of_ofExpr (ok : ofExpr e mode = .ok r) :
    ∃ g, compile 0 mode e = .ok g ∧ r = ⟨g, mode⟩ := by
  cases compiled : compile 0 mode e with
  | ok g =>
    unfold ofExpr at ok
    rw [compiled] at ok
    cases ok
    exact ⟨g, rfl, rfl⟩
  | error fault =>
    unfold ofExpr at ok
    rw [compiled] at ok
    cases ok

theorem fault?_of_ofExpr (ok : ofExpr e mode = .ok r) : e.fault? = none := by
  obtain ⟨g, compiled, -⟩ := compile_of_ofExpr ok
  exact fault?_of_compile compiled

theorem find?_spec (ok : ofExpr e mode = .ok r) {input : Input} (valid : input.isValid = true) :
    ∃ found, r.find? input = .ok (found.map fun j => ⟨input.text, ⟨input.span.start, j⟩⟩) ∧
      IsExtreme input.earliest (e.MatchesBetween input.text input.span.stop input.span.start)
        found := by
  obtain ⟨g, compiled, rfl⟩ := compile_of_ofExpr ok
  exact find?_compile compiled valid

/-- A search does not fail, whatever the span. -/
theorem exists_find? (ok : ofExpr e mode = .ok r) (input : Input) :
    ∃ m, r.find? input = .ok m := by
  cases hw : input.window? with
  | none => exact ⟨none, find?_of_invalid hw⟩
  | some window =>
    obtain ⟨found, searched, -⟩ := find?_spec ok (Option.isSome_of_eq_some hw)
    exact ⟨_, searched⟩

theorem matches?_spec (ok : ofExpr e mode = .ok r) (text : String) :
    ∃ b, r.matches? text = .ok b ∧
      (b = true ↔ e.MatchesBetween text text.utf8ByteSize 0 text.utf8ByteSize) := by
  obtain ⟨found, searched, extreme⟩ := find?_spec ok (Input.isValid_ofText text)
  refine ⟨found.any (· == text.utf8ByteSize), ?_, ?_⟩
  · unfold Regex.matches? Graph.matches?
    unfold Regex.find? at searched
    rw [searched]
    cases found <;> rfl
  · cases found with
    | none =>
      simp only [Option.any_none, Bool.false_eq_true, false_iff]
      exact extreme text.utf8ByteSize
    | some j =>
      simp only [Option.any_some, beq_iff_eq]
      constructor
      · rintro rfl
        exact extreme.1
      · intro whole
        have most : text.utf8ByteSize ≤ j := extreme.2 _ whole
        have inside : j ≤ text.utf8ByteSize :=
          (Input.le_of_matchesBetween (Input.isValid_ofText text) extreme.1).2
        omega

/-- A search in any mode finds the greatest offset, or the least one, up to which the expression
matches from the start of the span. A text matches if the expression matches all of it. All modes
find the same. -/
theorem find?_ofExpr (ok : ofExpr e mode = .ok r) :
    (∀ input : Input, input.isValid = true → ∃ found,
      r.find? input = .ok (found.map fun j => ⟨input.text, ⟨input.span.start, j⟩⟩) ∧
        IsExtreme input.earliest (e.MatchesBetween input.text input.span.stop input.span.start)
          found) ∧
    (∀ text, ∃ b, r.matches? text = .ok b ∧
      (b = true ↔ e.MatchesBetween text text.utf8ByteSize 0 text.utf8ByteSize)) ∧
    ∀ mode', ∃ r', ofExpr e mode' = .ok r' ∧ ∀ input, r'.find? input = r.find? input := by
  refine ⟨fun input valid => find?_spec ok valid, matches?_spec ok, ?_⟩
  intro mode'
  obtain ⟨g, i, ok', -, -⟩ := ofExpr_eq (fault?_of_ofExpr ok) mode'
  refine ⟨⟨g, mode'⟩, ok', ?_⟩
  intro input
  cases hw : input.window? with
  | none =>
    unfold Regex.find?
    rw [find?_of_invalid hw, find?_of_invalid hw]
  | some window =>
    have valid : input.isValid = true := Option.isSome_of_eq_some hw
    obtain ⟨found, searched, extreme⟩ := find?_spec ok valid
    obtain ⟨found', searched', extreme'⟩ := find?_spec ok' valid
    rw [searched, searched', extreme'.unique extreme]

/-- Letters `a` in front of a letter `b`. -/
def lettersBefore : Expr :=
  .sequence [.plus (.literal ['a']), .lookahead (.literal ['b']) false]

theorem isExtreme_lettersBefore :
    IsExtreme false (lettersBefore.MatchesBetween "aab" 3 0) (some 2) := by
  have first : Reads "aab" 3 0 1 ['a'] := ⟨[], ['a', 'b'], rfl, rfl, rfl, by decide⟩
  have second : Reads "aab" 3 1 2 ['a'] := ⟨['a'], ['b'], rfl, rfl, rfl, by decide⟩
  have ahead : Reads "aab" 3 2 3 ['b'] := ⟨['a', 'a'], [], rfl, rfl, rfl, by decide⟩
  constructor
  · simp only [lettersBefore, Expr.plus, Expr.MatchesBetween, Expr.MatchesAllBetween]
    refine ⟨2, ⟨2, by decide, by simp, 1, first, 2, second, rfl⟩, 2, ⟨rfl, ?_⟩, rfl⟩
    exact ⟨fun _ => trivial, fun _ => ⟨3, ahead⟩⟩
  · intro m h
    simp only [lettersBefore, Expr.plus, Expr.MatchesBetween, Expr.MatchesAllBetween] at h
    obtain ⟨k, -, k', ⟨rfl, holds⟩, rfl⟩ := h
    obtain ⟨j, before, after, -, start, stop, le⟩ := holds.mpr trivial
    have one : byteSize ['b'] = 1 := rfl
    rw [byteSize_append] at stop
    simp only [Bool.false_eq_true, if_false]
    omega

theorem find?_ofExpr_lettersBefore : ∃ r, ofExpr lettersBefore .minimal = .ok r ∧
    r.find? (.ofText "aab") = .ok (some ⟨"aab", ⟨0, 2⟩⟩) ∧ r.matches? "aab" = .ok false := by
  obtain ⟨g, i, ok, -, -⟩ := ofExpr_eq (e := lettersBefore) (by decide) .minimal
  obtain ⟨finds, accepts, -⟩ := find?_ofExpr ok
  obtain ⟨found, searched, extreme⟩ := finds (.ofText "aab") (Input.isValid_ofText "aab")
  obtain ⟨b, matched, same⟩ := accepts "aab"
  have last : found = some 2 := extreme.unique isExtreme_lettersBefore
  have short : ¬ b = true := by
    intro whole
    have le : 3 ≤ 2 := isExtreme_lettersBefore.2 3 (same.mp whole)
    omega
  refine ⟨⟨g, .minimal⟩, ok, ?_, ?_⟩
  · rw [searched, last]
    rfl
  · rw [matched, Bool.eq_false_iff.mpr short]

end Regex

end PatternAutomata
