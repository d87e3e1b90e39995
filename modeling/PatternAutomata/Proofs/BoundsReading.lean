import Mathlib
import PatternAutomata.Proofs.Rules
import PatternAutomata.Proofs.Scanning

/-!
# Reading the bounds of repetitions

Numbers and bounds that are written by the rules are read as themselves (`run_bounds`). A question
mark after them would make the repetition lazy, so none may follow.
-/
namespace PatternAutomata.Pattern

open Scanner

theorem isBlank_digits : (",\x7d0123456789".toList.all fun c => !isBlank c) = true := by cbv

theorem isBlank_of_mem {c : Char} (h : c ∈ ",\x7d0123456789".toList) : isBlank c = false := by
  simpa using List.all_eq_true.mp isBlank_digits c h

/-- The notation of a number starts with a digit. -/
theorem exists_digits (n : Nat) : ∃ c cs, Nat.toDigits 10 n = c :: cs ∧ c ≠ '}' ∧
    isBlank c = false := by
  obtain ⟨c, cs, eq⟩ := List.exists_cons_of_ne_nil (Nat.toDigits_ne_nil (n := n) (b := 10))
  have mem : c ∈ Nat.toDigits 10 n := by
    rw [eq]
    exact List.mem_cons_self
  obtain ⟨d, hd, rfl⟩ := mem_toDigits (by decide) mem
  have listed : ∀ d < 10, d.digitChar ≠ '}' ∧ d.digitChar ∈ ",\x7d0123456789".toList := by decide
  exact ⟨_, cs, eq, (listed d hd).1, isBlank_of_mem (listed d hd).2⟩

/-- A number as it is written is read as itself, up to a sign after it. -/
theorem run_decimal {n : Nat} (small : n < UInt32.size) {c : Char} (sign : c = ',' ∨ c = '}')
    (rest : List Char) :
    (decimal false).run (Nat.toDigits 10 n ++ c :: rest) = .ok (.ok n, c :: rest) := by
  have blank : isBlank c = false := by
    rcases sign with rfl | rfl
    · exact isBlank_of_mem (by decide)
    · exact isBlank_of_mem (by decide)
  have digit : c.isDigit = false := by
    rcases sign with rfl | rfl <;> decide
  have front : splitWhile false isBlank (Nat.toDigits 10 n ++ c :: rest) =
      ([], Nat.toDigits 10 n ++ c :: rest) := by
    obtain ⟨d, ds, eq, -, first⟩ := exists_digits n
    exact splitWhile_stop (by simpa [eq] using first)
  have digits : splitWhile false Char.isDigit (Nat.toDigits 10 n ++ c :: rest) =
      (Nat.toDigits 10 n, c :: rest) :=
    splitWhile_append (fun d hd => Nat.isDigit_of_mem_toDigits (by decide) (by decide) hd)
      (by simpa using digit)
  have back : splitWhile false isBlank (c :: rest) = ([], c :: rest) :=
    splitWhile_stop (by simpa using blank)
  simp [decimal, front, digits, back, decimalValue_toDigits, small, Nat.toDigits_ne_nil]

theorem WritesBounds.ordered {text : List Char} {min : Nat} {max : Option Nat}
    (h : WritesBounds text min max) : ∀ m ∈ max, min ≤ m := by
  cases h with
  | between small ordered => simpa using ordered
  | _ => simp

/-- No question mark follows. -/
def NoMark (rest : List Char) : Prop := rest.head? ≠ some '?'

theorem run_notLazy {rest : List Char} (h : NoMark rest) :
    (accept "?").run rest = .ok (false, rest) := by
  cases rest with
  | nil => rfl
  | cons c rest =>
    have other : '?' ≠ c := fun e => h (by rw [e]; rfl)
    simp [other]

theorem run_signBounds (min : Nat) (max : Option Nat) {rest : List Char} (h : NoMark rest) :
    (signBounds min max).run rest = .ok (⟨min, max, true⟩, rest) := by
  simp only [signBounds, run_bind, run_notLazy h]
  rfl

theorem run_countedBounds {text rest : List Char} {min : Nat} {max : Option Nat}
    (some : text ≠ [])
    (read : (counts false).run (text ++ '}' :: rest) = .ok ((min, max), '}' :: rest))
    (ordered : ∀ m ∈ max, min ≤ m) (h : NoMark rest) :
    (countedBounds false).run (text ++ '}' :: rest) = .ok (⟨min, max, true⟩, rest) := by
  obtain ⟨c, more, rfl⟩ := List.exists_cons_of_ne_nil some
  have inOrder : max.any (· < min) = false := by
    cases max with
    | none => rfl
    | some m => simpa using ordered m rfl
  have brace : (accept "\x7d").run ('}' :: rest) = .ok (true, rest) := by simp
  simp only [countedBounds, run_bind, run_skip, List.cons_append, run_needMore_cons] at read ⊢
  simp only [read, brace, run_bind, run_skip, run_notLazy h, run_ite, inOrder]
  simp

theorem run_counts_exact {n : Nat} (small : n < UInt32.size) (rest : List Char) :
    (counts false).run (Nat.toDigits 10 n ++ '}' :: rest) = .ok ((n, some n), '}' :: rest) := by
  simp [counts, run_decimal small (.inr rfl), through]

theorem run_counts_from {n : Nat} (small : n < UInt32.size) (rest : List Char) :
    (counts false).run (Nat.toDigits 10 n ++ [','] ++ '}' :: rest) =
      .ok ((n, none), '}' :: rest) := by
  simp [counts, run_decimal small (.inl rfl), through]

theorem run_counts_between {m n : Nat} (small : m < UInt32.size) (small' : n < UInt32.size)
    (rest : List Char) :
    (counts false).run (Nat.toDigits 10 m ++ ',' :: Nat.toDigits 10 n ++ '}' :: rest) =
      .ok ((m, some n), '}' :: rest) := by
  obtain ⟨d, ds, eq, other, -⟩ := exists_digits n
  have second := run_decimal small' (.inr rfl) rest
  simp only [eq, List.cons_append] at second ⊢
  simp [counts, run_decimal small (.inl rfl), through, other, second]

namespace Reader

variable {r : Reader} {t : Tree} {cs rest : List Char} {min : Nat} {max : Option Nat}

theorem run_repeatLast {bounds : Scanner Bounds}
    (read : bounds.run cs = .ok (⟨min, max, true⟩, rest))
    (noFlags : ∀ changes, t ≠ .flags changes) :
    ((r.push t).repeatLast bounds).run cs = .ok (r.push (.repetition t min max true), rest) := by
  cases t with
  | flags changes => exact absurd rfl (noFlags changes)
  | _ => simp [repeatLast, push, Level.push, read]

/-- Bounds put the part before them under a repetition. -/
theorem run_bounds {bounds : List Char} (written : WritesBounds bounds min max)
    (outside : r.brackets = []) (compact : r.spaced = false)
    (noFlags : ∀ changes, t ≠ .flags changes) (h : NoMark rest) :
    (r.push t).run (bounds ++ rest) = (r.push (.repetition t min max true)).run rest := by
  have outside' : (r.push t).brackets = [] := outside
  have compact' : (r.push t).spaced = false := compact
  have ordered := written.ordered
  have sign {c : Char}
      (taken : (r.push t).takeOutside c = (r.push t).repeatLast (signBounds min max)) :
      (r.push t).run (c :: rest) = (r.push (.repetition t min max true)).run rest := by
    apply run_cons compact'
    unfold take
    rw [outside']
    exact taken ▸ run_repeatLast (run_signBounds min max h) noFlags
  have braces {text : List Char} (some : text ≠ []) (read : (counts false).run
      (text ++ '}' :: rest) = .ok ((min, max), '}' :: rest)) :
      (r.push t).run ('{' :: text ++ ['}'] ++ rest) =
        (r.push (.repetition t min max true)).run rest := by
    have text_eq : '{' :: text ++ ['}'] ++ rest = '{' :: (text ++ '}' :: rest) := by simp
    rw [text_eq]
    apply run_cons compact'
    unfold take
    rw [outside']
    have counted := run_countedBounds some read ordered h
    rw [← compact'] at counted
    exact run_repeatLast counted noFlags
  cases written with
  | star => exact sign rfl
  | plus => exact sign rfl
  | opt => exact sign rfl
  | exact small => exact braces Nat.toDigits_ne_nil (run_counts_exact small rest)
  | atLeast small =>
    have split : '{' :: Nat.toDigits 10 min ++ [',', '}'] =
        '{' :: (Nat.toDigits 10 min ++ [',']) ++ ['}'] := by simp
    rw [split]
    exact braces (by simp) (run_counts_from small rest)
  | between small le =>
    exact braces (by simp) (run_counts_between (Nat.lt_of_le_of_lt le small) small rest)

end Reader

end PatternAutomata.Pattern
