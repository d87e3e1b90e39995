import PatternAutomata.Proofs.ClassPatterns

/-!
# Classes by name

A name is looked up in a pattern and on its own. What a pattern refuses is refused on its own as
well, with the same error. What a pattern accepts stands for the same characters on its own, as long
as there are at least two of them (`ofName_spec`): a name of a single character, like `Zl`, is
refused on its own, although a pattern reads it as the literal of that character.
-/
namespace PatternAutomata.CharSet

open Pattern

variable {Fault : Type} {P : Parser Fault} {name : String}

/-- A name is refused in a pattern and on its own for the same reason. If a pattern accepts it, then
it stands for the same characters on its own, provided that there are at least two of them. -/
theorem ofName_spec (names : P.KnowsNames) (plain : '}' ∉ name.toList) :
    (∀ fault, Expr.parse P (braced name) = .error fault → ofName P name = .error fault) ∧
      ∀ e, Expr.parse P (braced name) = .ok e → ∃ s : CharSet,
        (∀ u t, e.Matches u t ↔ ∃ c ∈ s, u = c :: t) ∧
          ((∃ c ∈ s, ∃ d ∈ s, c ≠ d) ∧ ofName P name = .ok s ∨
            (∀ c ∈ s, ∀ d ∈ s, c = d) ∧ ofName P name = .error (.unsupported (.name name))) := by
  unfold ofName
  rcases names name plain with ⟨fault, refused⟩ | ⟨h, s, read, stands⟩
  · rw [Expr.parse_of_error refused, refused]
    refine ⟨fun fault failed => ?_, nofun⟩
    cases failed
    rfl
  · have parsed : Expr.parse P (braced name) = .ok (Expr.oneOf s) := by
      rw [Expr.parse_of_ok read, Expr.toExpr_of_standsFor stands]
      rfl
    rw [parsed, read]
    refine ⟨nofun, ?_⟩
    rintro e ⟨⟩
    refine ⟨s, Expr.matches_oneOf s, ?_⟩
    cases stands with
    | one c =>
      refine .inr ⟨fun x hx y hy => ?_, rfl⟩
      exact (mem_single.mp hx).trans (mem_single.mp hy).symm
    | none => exact .inr ⟨fun x hx => absurd hx not_mem_empty, rfl⟩
    | several several same =>
      refine .inl ⟨several, congrArg Except.ok ?_⟩
      exact ext_mem fun x => Hir.mem_ofRanges_ends.trans (same x)

/-- There is one character that separates lines, and nothing else in its category. -/
theorem members_lineSeparator :
    (Property.ofText "Zl".toList false).members = .ok (single (Char.ofNat 0x2028)) := by
  decide +kernel

theorem ofName_spec_lineSeparator :
    Expr.parse .standard (braced "Zl") = .ok (.literal [Char.ofNat 0x2028]) ∧
      ofName .standard "Zl" = .error (.unsupported (.name "Zl")) := by
  have known : Tables.standard.property "Zl".toList = some (single (Char.ofNat 0x2028)) := by
    rw [Tables.standard_property, members_lineSeparator]
    rfl
  have written : WritesClass .standard (braced "Zl").toList 0 (single (Char.ofNat 0x2028)) :=
    .escape (.name (by decide) known)
  obtain ⟨h, read, stands⟩ := Parser.readsClasses_standard (braced "Zl") 0 _ written
  have parsed : Expr.parse .standard (braced "Zl") =
      .ok (Expr.oneOf (single (Char.ofNat 0x2028))) := by
    rw [Expr.parse_of_ok read, Expr.toExpr_of_standsFor stands]
    rfl
  have one : Expr.oneOf (single (Char.ofNat 0x2028)) = .literal [Char.ofNat 0x2028] :=
    Expr.oneOf_eq_literal_iff.mpr fun d => mem_single
  refine ⟨parsed.trans (congrArg Except.ok one), ?_⟩
  obtain ⟨s, matched, ⟨⟨c, hc, d, hd, different⟩, -⟩ | ⟨-, refused⟩⟩ :=
    (ofName_spec Parser.knowsNames_standard (by decide)).2 _ parsed
  · have only {x : Char} (hx : x ∈ s) : x = Char.ofNat 0x2028 := by
      obtain ⟨y, hy, same⟩ := (Expr.matches_oneOf _ _ _).mp ((matched [x] []).mpr ⟨x, hx, rfl⟩)
      cases same
      exact mem_single.mp hy
    exact absurd ((only hc).trans (only hd).symm) different
  · exact refused

end PatternAutomata.CharSet
