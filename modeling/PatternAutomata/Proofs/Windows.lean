import PatternAutomata.Text.Span
import Mathlib.Tactic.Common

/-!
# Windows of a text

A window stands in its text between two stretches whose sizes tell the offsets of the span
(`window?_eq_some_iff`), so that what is left of a window is again a window (`window?_suffix`).
-/
namespace PatternAutomata

theorem byteSize_append (a b : List Char) : byteSize (a ++ b) = byteSize a + byteSize b := by
  induction a with
  | nil => simp [byteSize]
  | cons c a ih => rw [List.cons_append, byteSize, byteSize, ih, Nat.add_assoc]

theorem byteSize_take_le {u : List Char} {m n : Nat} (h : m ≤ n) :
    byteSize (u.take m) ≤ byteSize (u.take n) := by
  obtain ⟨k, rfl⟩ := Nat.exists_eq_add_of_le h
  rw [List.take_add, byteSize_append]
  exact Nat.le_add_right ..

theorem byteSize_eq_zero {u : List Char} : byteSize u = 0 ↔ u = [] := by
  cases u with
  | nil => simp [byteSize]
  | cons c u =>
    have := c.utf8Size_pos
    simp only [byteSize, reduceCtorEq, iff_false]
    omega

/-- A list is divided after a stretch of the given size. -/
theorem splitBytes?_eq_some_iff {n : Nat} {cs a b : List Char} :
    splitBytes? n cs = some (a, b) ↔ cs = a ++ b ∧ byteSize a = n := by
  induction cs generalizing n a with
  | nil =>
    cases n with
    | zero =>
      rw [splitBytes?, Option.some.injEq, Prod.mk.injEq, byteSize_eq_zero]
      constructor
      · rintro ⟨rfl, rfl⟩
        exact ⟨rfl, rfl⟩
      · rintro ⟨e, rfl⟩
        exact ⟨rfl, e⟩
    | succ n =>
      rw [splitBytes?]
      constructor
      · intro h
        cases h
      · rintro ⟨e, size⟩
        have none : a = [] := (List.append_eq_nil_iff.mp e.symm).1
        rw [none] at size
        cases size
  | cons c cs ih =>
    cases n with
    | zero =>
      rw [splitBytes?, Option.some.injEq, Prod.mk.injEq, byteSize_eq_zero]
      constructor
      · rintro ⟨rfl, rfl⟩
        exact ⟨rfl, rfl⟩
      · rintro ⟨e, rfl⟩
        exact ⟨rfl, e⟩
    | succ n =>
      have pos := c.utf8Size_pos
      rw [splitBytes?]
      constructor
      · intro h
        split at h
        · obtain ⟨⟨a', b'⟩, split, e⟩ := Option.map_eq_some_iff.mp h
          cases e
          obtain ⟨rfl, size⟩ := ih.mp split
          refine ⟨rfl, ?_⟩
          rw [byteSize, size]
          omega
        · cases h
      · rintro ⟨e, size⟩
        cases a with
        | nil => cases size
        | cons c' a =>
          cases e
          rw [byteSize] at size
          rw [if_pos (by omega), ih.mpr ⟨rfl, by omega⟩]
          rfl

/-- A window stands between two stretches of its text. -/
theorem window?_eq_some_iff {input : Input} {window : List Char} :
    input.window? = some window ↔ ∃ before after, input.text.toList = before ++ window ++ after ∧
      byteSize before = input.span.start ∧ byteSize (before ++ window) = input.span.stop := by
  unfold Input.window?
  constructor
  · intro h
    split at h
    · obtain ⟨⟨inside, after⟩, outer, h⟩ := Option.bind_eq_some_iff.mp h
      obtain ⟨⟨before, window'⟩, inner, h⟩ := Option.bind_eq_some_iff.mp h
      cases h
      obtain ⟨text, stop⟩ := splitBytes?_eq_some_iff.mp outer
      obtain ⟨rfl, start⟩ := splitBytes?_eq_some_iff.mp inner
      exact ⟨before, after, text, start, stop⟩
    · cases h
  · rintro ⟨before, after, text, start, stop⟩
    have ordered : input.span.isOrdered = true := by
      rw [byteSize_append] at stop
      simp only [Span.isOrdered, decide_eq_true_eq]
      omega
    rw [if_pos ordered, splitBytes?_eq_some_iff.mpr ⟨text, stop⟩]
    simp only [Option.bind_eq_bind, Option.bind_some]
    rw [splitBytes?_eq_some_iff.mpr ⟨rfl, start⟩]
    rfl

/-- What is left of a window is the window of a span that starts later. -/
theorem window?_suffix {text : String} {start stop : Nat} {earliest earliest' : Bool}
    {taken rest : List Char}
    (h : (Input.mk text ⟨start, stop⟩ earliest).window? = some (taken ++ rest)) :
    (Input.mk text ⟨start + byteSize taken, stop⟩ earliest').window? = some rest := by
  obtain ⟨before, after, split, size, size'⟩ := window?_eq_some_iff.mp h
  refine window?_eq_some_iff.mpr ⟨before ++ taken, after, ?_, ?_, ?_⟩
  · simp only [split, List.append_assoc]
  · simp only at size
    rw [byteSize_append, size]
  · simp only at size'
    rw [← size', List.append_assoc]

/-- What is taken of a window is the window of a span that stops earlier. -/
theorem window?_prefix {text : String} {start stop : Nat} {earliest earliest' : Bool}
    {taken rest : List Char}
    (h : (Input.mk text ⟨start, stop⟩ earliest).window? = some (taken ++ rest)) :
    (Input.mk text ⟨start, start + byteSize taken⟩ earliest').window? = some taken := by
  obtain ⟨before, after, split, size, -⟩ := window?_eq_some_iff.mp h
  refine window?_eq_some_iff.mpr ⟨before, rest ++ after, ?_, size, ?_⟩
  · simp only [split, List.append_assoc]
  · rw [byteSize_append, size]

theorem byteSize_toList (text : String) : byteSize text.toList = text.utf8ByteSize := by
  have encode (cs : List Char) : byteSize cs = cs.utf8Encode.size := by
    induction cs with
    | nil => rfl
    | cons c cs ih =>
      rw [List.utf8Encode_cons, ByteArray.size_append, ← ih, byteSize]
      simp [List.utf8Encode]
  rw [encode, String.utf8Encode_toList]
  rfl

/-- The window of a whole text is the text. -/
theorem window?_ofText (text : String) : (Input.ofText text).window? = some text.toList := by
  refine window?_eq_some_iff.mpr ⟨[], [], ?_, rfl, ?_⟩
  · simp [Input.ofText]
  · exact byteSize_toList text

end PatternAutomata
