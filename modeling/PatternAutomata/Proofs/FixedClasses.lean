import PatternAutomata.Proofs.Rules

/-!
# Classes with a notation of their own

The classes that are written in a fixed way, such as `\d`, hold what the parser reads their notation
as, and that is what the notation stands for by the rules (`writesClass_of_mem_fixedClasses`).
-/
namespace PatternAutomata

open Pattern

variable {Fault : Type} {P : Parser Fault} {U : Tables}

/-- Several characters come back as a class, so nothing is lost of them. -/
theorem CharSet.ofPattern_eq (classes : P.ReadsClasses U) (pattern : String) {n : Nat} {s : CharSet}
    (written : WritesClass U pattern.toList n s) (several : s.Several) :
    ofPattern P pattern = s := by
  obtain ⟨h, ok, stands⟩ := classes pattern n s written
  obtain ⟨c, hc, d, hd, different⟩ := several
  cases stands with
  | one x =>
    rw [mem_single] at hc hd
    exact absurd (hc.trans hd.symm) different
  | none => exact absurd hc not_mem_empty
  | several _ same =>
    unfold ofPattern
    rw [ok]
    exact ext_mem fun x => Hir.mem_ofRanges_ends.trans (same x)

/-- The classes that are written in a fixed way. -/
def Expr.fixedClasses (P : Parser Fault) : List Expr :=
  [anyChar, digit P, notDigit P, letter P, letterOrDigit P, number P, control P, word P, notWord P,
    whitespace P, notWhitespace P]

section
variable (classes : P.ReadsClasses U)
include classes

theorem writesClass_ofPattern (pattern : String) {n : Nat} {s : CharSet}
    (written : WritesClass U pattern.toList n s) (several : s.Several) :
    WritesClass U pattern.toList n (CharSet.ofPattern P pattern) := by
  rwa [CharSet.ofPattern_eq classes pattern written several]

variable (several : U.Several)
include several

/-- A shorthand and its opposite are written with one letter each. -/
theorem writesClass_shorthand (k : Shorthand) (pattern other : String)
    (eq : pattern.toList = ['\\', k.sign]) (eq' : other.toList = ['\\', k.otherSign]) :
    WritesClass U pattern.toList 0 (CharSet.ofPattern P pattern) ∧
      WritesClass U other.toList 0 (CharSet.ofPattern P pattern).negate := by
  have written : WritesClass U pattern.toList 0 (U.shorthand k) := eq ▸ .escape (.shorthand k)
  have same := CharSet.ofPattern_eq classes pattern written (several.shorthand k)
  refine ⟨writesClass_ofPattern classes pattern written (several.shorthand k), ?_⟩
  rw [same, eq']
  exact .escape (.notShorthand k)

/-- The notation of a class that is written in a fixed way stands for it. -/
theorem writesClass_of_mem_fixedClasses {c : CharClass} (h : .charClass c ∈ Expr.fixedClasses P) :
    ∃ label, c.label = some label ∧ ∃ n, WritesClass U label.toList n c.chars := by
  obtain ⟨letter, isLetter, letters⟩ := several.property "L" (by simp)
  obtain ⟨number, isNumber, numbers⟩ := several.property "N" (by simp)
  obtain ⟨decimal, isDecimal, -⟩ := several.property "Nd" (by simp)
  obtain ⟨control, isControl, controls⟩ := several.property "Cc" (by simp)
  have readLetter : WritesEscape U "\\pL".toList letter := .letter rfl isLetter
  have readDecimal : WritesEscape U "\\p\x7bNd\x7d".toList decimal := .name (by decide) isDecimal
  have either : (letter ∪ decimal).Several :=
    letters.mono fun _ hc => CharSet.mem_union.mpr (.inl hc)
  have blank : WritesEscape U "\\s".toList (U.shorthand .space) := .shorthand .space
  have everything : U.shorthand .space ∪ (U.shorthand .space).negate = CharSet.any := by
    apply CharSet.ext_mem
    intro c
    rw [CharSet.mem_union, CharSet.mem_negate]
    exact iff_of_true (Classical.em _) (CharSet.mem_any c)
  have digit := writesClass_shorthand classes several .digit "\\d" "\\D" rfl rfl
  have word := writesClass_shorthand classes several .word "\\w" "\\W" rfl rfl
  have space := writesClass_shorthand classes several .space "\\s" "\\S" rfl rfl
  simp only [Expr.fixedClasses, List.mem_cons, List.not_mem_nil, or_false] at h
  rcases h with h | h | h | h | h | h | h | h | h | h | h
  all_goals
    cases Expr.charClass.inj h
    refine ⟨_, rfl, ?_⟩
  · rw [← everything]
    exact ⟨_, .bracketed (.more (.escape blank) (.one (.escape (.notShorthand .space))))⟩
  · exact ⟨_, digit.1⟩
  · exact ⟨_, digit.2⟩
  · exact ⟨_, writesClass_ofPattern classes _ (.escape readLetter) letters⟩
  · have written := WritesClass.bracketed (.more (.escape readLetter) (.one (.escape readDecimal)))
    exact ⟨_, writesClass_ofPattern classes "[\\pL\\p\x7bNd\x7d]" written either⟩
  · exact ⟨_, writesClass_ofPattern classes _ (.escape (.letter rfl isNumber)) numbers⟩
  · exact ⟨_, writesClass_ofPattern classes _ (.escape (.name (by decide) isControl)) controls⟩
  · exact ⟨_, word.1⟩
  · exact ⟨_, word.2⟩
  · exact ⟨_, space.1⟩
  · exact ⟨_, space.2⟩

end

end PatternAutomata
