import PatternAutomata.CharSet.Printer
import PatternAutomata.Pattern.Reader
import Mathlib.Data.List.Basic

/-!
# Scanning a known text

What scanners make of a text whose front is known, one law for each of them, and the digits of
numbers as they are written and read.
-/
namespace PatternAutomata.Pattern

@[simp]
theorem nextPart_false (cs : List Char) : nextPart false cs = cs := rfl

theorem splitWhile_false (p : Char → Bool) (cs : List Char) :
    splitWhile false p cs = (cs.takeWhile p, cs.dropWhile p) := by
  induction cs with
  | nil =>
    rw [splitWhile]
    rfl
  | cons c cs ih =>
    rw [splitWhile]
    split
    · next h => simp [ih, h]
    · next h => simp [h]

/-- Some characters that pass a test are split off up to one that does not. -/
theorem splitWhile_append {p : Char → Bool} {cs rest : List Char} (h : ∀ c ∈ cs, p c = true)
    (stop : ∀ c ∈ rest.head?, p c = false) : splitWhile false p (cs ++ rest) = (cs, rest) := by
  rw [splitWhile_false, List.takeWhile_append_of_pos h, List.dropWhile_append_of_pos h]
  cases rest with
  | nil => simp
  | cons c rest => simp [stop c rfl]

theorem splitWhile_stop {p : Char → Bool} {rest : List Char}
    (stop : ∀ c ∈ rest.head?, p c = false) : splitWhile false p rest = ([], rest) :=
  @splitWhile_append p [] rest (by simp) stop

namespace Scanner

variable {α β : Type}

@[simp]
theorem run_pure (a : α) (cs : List Char) : (pure a : Scanner α).run cs = .ok (a, cs) := rfl

@[simp]
theorem run_bind (s : Scanner α) (f : α → Scanner β) (cs : List Char) : (s >>= f).run cs =
    match s.run cs with
    | .error e => .error e
    | .ok (a, rest) => (f a).run rest := rfl

@[simp]
theorem run_fail (e : ReadError) (cs : List Char) : (fail e : Scanner α).run cs = .error e := rfl

@[simp]
theorem run_ofExcept_ok (a : α) (cs : List Char) : (ofExcept (.ok a)).run cs = .ok (a, cs) := rfl

@[simp]
theorem run_ahead (cs : List Char) : ahead.run cs = .ok (cs, cs) := rfl

@[simp]
theorem run_drop (n : Nat) (cs : List Char) : (drop n).run cs = .ok ((), cs.drop n) := rfl

@[simp]
theorem run_skip (cs : List Char) : (skip false).run cs = .ok ((), cs) := rfl

@[simp]
theorem run_takeWhile (spaced : Bool) (p : Char → Bool) (cs : List Char) :
    (takeWhile spaced p).run cs = .ok (splitWhile spaced p cs) := rfl

@[simp]
theorem run_needMore_cons (e : ReadError) (c : Char) (cs : List Char) :
    (needMore e).run (c :: cs) = .ok ((), c :: cs) := rfl

@[simp]
theorem run_next_cons (e : ReadError) (c : Char) (cs : List Char) :
    (next e).run (c :: cs) = .ok (c, cs) := rfl

@[simp]
theorem run_accept (text : String) (cs : List Char) : (accept text).run cs =
    if text.toList.isPrefixOf cs then .ok (true, cs.drop text.toList.length)
    else .ok (false, cs) := by
  unfold accept
  simp only [run_bind, run_ahead, String.length_toList]
  split <;> rfl

@[simp]
theorem run_ite (p : Prop) [Decidable p] (s t : Scanner α) (cs : List Char) :
    (if p then s else t).run cs = if p then s.run cs else t.run cs := by
  split <;> rfl

end Scanner

namespace Reader

variable {r r' : Reader} {c : Char} {rest left : List Char}

theorem run_cons (compact : r.spaced = false) (taken : (r.take c).run rest = .ok (r', left)) :
    r.run (c :: rest) = r'.run left := by
  rw [run]
  split
  · next none => simp [compact] at none
  · next c' rest' next =>
    rw [compact] at next
    cases next
    split
    · next failed => simp [taken] at failed
    · next again =>
      rw [taken] at again
      cases again
      rfl

theorem run_error (compact : r.spaced = false) {e : ReadError}
    (failed : (r.take c).run rest = .error e) : r.run (c :: rest) = .error e := by
  rw [run]
  split
  · next none => simp [compact] at none
  · next c' rest' next =>
    rw [compact] at next
    cases next
    split
    · next again =>
      rw [failed] at again
      cases again
      rfl
    · next taken => simp [failed] at taken

theorem run_nil (compact : r.spaced = false) : r.run [] = r.finish := by
  rw [run]
  split
  · rfl
  · next next =>
    rw [compact] at next
    cases next

end Reader

section digits

variable {b : Nat}

theorem mem_toDigits (hb : 1 < b) {n : Nat} {c : Char} (h : c ∈ Nat.toDigits b n) :
    ∃ d < b, c = d.digitChar := by
  induction n using Nat.strongRecOn with
  | _ n ih =>
    by_cases small : n < b
    · rw [Nat.toDigits_of_lt_base small, List.mem_singleton] at h
      exact ⟨n, small, h⟩
    · rw [Nat.toDigits_of_base_le hb (Nat.le_of_not_lt small), List.mem_append,
        List.mem_singleton] at h
      rcases h with h | rfl
      · exact ih (n / b) (Nat.div_lt_self (by omega) hb) h
      · exact ⟨n % b, Nat.mod_lt n (by omega), rfl⟩

/-- A number is read from its digits. -/
theorem foldl_toDigits (hb : 1 < b) {value : Char → Nat}
    (digit : ∀ d < b, value d.digitChar = d) (n : Nat) :
    (Nat.toDigits b n).foldl (fun k c => b * k + value c) 0 = n := by
  induction n using Nat.strongRecOn with
  | _ n ih =>
    by_cases small : n < b
    · simp [Nat.toDigits_of_lt_base small, digit n small]
    · have last : n % b < b := Nat.mod_lt n (by omega)
      rw [Nat.toDigits_of_base_le hb (Nat.le_of_not_lt small), List.foldl_append,
        ih (n / b) (Nat.div_lt_self (by omega) hb)]
      simp [digit _ last, Nat.div_add_mod]

end digits

theorem decimalValue_toDigits (n : Nat) : decimalValue (Nat.toDigits 10 n) = n := by
  refine foldl_toDigits (by decide) ?_ n
  decide

/-- The digits that a code point is written with. -/
theorem hexadecimal_eq (c : Char) :
    (hexadecimal true c).toList = (Nat.toDigits 16 c.toNat).map Char.toUpper := by
  simp [hexadecimal]

theorem hexValue_hexadecimal (c : Char) :
    Unicode.hexValue (hexadecimal true c).toList = c.toNat := by
  rw [hexadecimal_eq, Unicode.hexValue, List.foldl_map]
  refine foldl_toDigits (by decide) ?_ c.toNat
  decide

theorem isHexDigit_of_mem_hexadecimal {c d : Char} (h : d ∈ (hexadecimal true c).toList) :
    isHexDigit d = true ∧ d ≠ '}' := by
  rw [hexadecimal_eq, List.mem_map] at h
  obtain ⟨u, hu, rfl⟩ := h
  obtain ⟨n, hn, rfl⟩ := mem_toDigits (by decide) hu
  have digits : ∀ n < 16, isHexDigit n.digitChar.toUpper = true ∧ n.digitChar.toUpper ≠ '}' := by
    decide
  exact digits n hn

end PatternAutomata.Pattern
