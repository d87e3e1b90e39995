import PatternAutomata.Expr.Matches
import PatternAutomata.Proofs.Windows

/-!
# Matches between byte offsets

What an expression matches can also be told by the byte offsets in a text between which it matches.
Inside a span this comes to the same as matching the front of what is left of the window
(`matchesBetween_iff`).
-/
namespace PatternAutomata

/-- The characters of the text between two byte offsets, which lie before `stop`. -/
def Reads (text : String) (stop i j : Nat) (cs : List Char) : Prop :=
  ∃ before after, text.toList = before ++ cs ++ after ∧ byteSize before = i ∧
    byteSize (before ++ cs) = j ∧ j ≤ stop

namespace Expr

mutual

/-- The expression matches from one byte offset of the text to another, up to `stop`. -/
def MatchesBetween (text : String) (stop : Nat) : Expr → Nat → Nat → Prop
  | charClass c, i, j => ∃ x ∈ c.chars, Reads text stop i j [x]
  | literal cs, i, j => Reads text stop i j cs
  | sequence items, i, j => MatchesAllBetween text stop items i j
  | alternatives items, i, j => MatchesAnyBetween text stop items i j
  | repetition body min max, i, j =>
    ∃ n, min ≤ n ∧ (∀ m ∈ max, n ≤ m) ∧ Iterate (MatchesBetween text stop body) n i j
  | lookahead body negated, i, j =>
    i = j ∧ ((∃ k, MatchesBetween text stop body i k) ↔ negated = false)

def MatchesAllBetween (text : String) (stop : Nat) : List Expr → Nat → Nat → Prop
  | [], i, j => i = j
  | e :: es, i, j => ∃ k, MatchesBetween text stop e i k ∧ MatchesAllBetween text stop es k j

def MatchesAnyBetween (text : String) (stop : Nat) : List Expr → Nat → Nat → Prop
  | [], _, _ => False
  | e :: es, i, j => MatchesBetween text stop e i j ∨ MatchesAnyBetween text stop es i j

end

end Expr

/-- Some characters stand in the text and end at a byte offset. -/
def EndsAt (text : String) (stop : Nat) (s : List Char) : Prop :=
  ∃ before after, text.toList = before ++ s ++ after ∧ byteSize (before ++ s) = stop

namespace Input

variable {input : Input} {window v : List Char}

theorem isValid_ofText (text : String) : (Input.ofText text).isValid = true := by
  unfold isValid
  rw [window?_ofText]
  rfl

theorem endsAt_window (hw : input.window? = some window) :
    EndsAt input.text input.span.stop window ∧
      input.span.start + byteSize window = input.span.stop := by
  obtain ⟨before, after, split, start, stop⟩ := window?_eq_some_iff.mp hw
  refine ⟨⟨before, after, split, stop⟩, ?_⟩
  rw [← stop, byteSize_append, start]

/-- The offset at which some text is left of a window. -/
theorem offset_eq (hw : input.window? = some window) (suffix : v <:+ window) {n : Nat}
    (len : n + v.length = window.length) :
    input.span.start + byteSize (window.take n) = input.span.stop - byteSize v := by
  obtain ⟨-, size⟩ := endsAt_window hw
  obtain ⟨taken, rfl⟩ := suffix
  have same : n = taken.length := by
    rw [List.length_append] at len
    omega
  rw [byteSize_append] at size
  rw [same, List.take_left]
  omega

end Input

section

variable {text : String} {stop i j : Nat} {s t : List Char}

theorem EndsAt.suffix (h : EndsAt text stop s) (suffix : t <:+ s) : EndsAt text stop t := by
  obtain ⟨before, after, split, size⟩ := h
  obtain ⟨taken, rfl⟩ := suffix
  refine ⟨before ++ taken, after, ?_, ?_⟩
  · rw [split]
    simp only [List.append_assoc]
  · rw [← size, List.append_assoc]

/-- A text can be divided at a byte offset in one way only. -/
theorem append_unique {a b c d : List Char} (same : a ++ b = c ++ d)
    (size : byteSize a = byteSize c) : a = c ∧ b = d := by
  have left : splitBytes? (byteSize a) (a ++ b) = some (a, b) :=
    splitBytes?_eq_some_iff.mpr ⟨rfl, rfl⟩
  have right : splitBytes? (byteSize a) (a ++ b) = some (c, d) :=
    splitBytes?_eq_some_iff.mpr ⟨same, size.symm⟩
  rw [left] at right
  simpa using right

theorem reads_iff (h : EndsAt text stop s) {cs : List Char} :
    Reads text stop (stop - byteSize s) j cs ↔ ∃ t, s = cs ++ t ∧ j = stop - byteSize t := by
  obtain ⟨before, after, split, size⟩ := h
  rw [byteSize_append] at size
  constructor
  · rintro ⟨before', after', split', start, finish, le⟩
    have same : before' ++ (cs ++ after') = before ++ (s ++ after) := by
      rw [← List.append_assoc, ← split', split, List.append_assoc]
    obtain ⟨rfl, rest⟩ := append_unique same (by omega)
    rw [byteSize_append] at finish
    rcases List.append_eq_append_iff.mp rest with ⟨t, rfl, -⟩ | ⟨over', rfl, -⟩
    · refine ⟨t, rfl, ?_⟩
      rw [byteSize_append] at size
      omega
    · rw [byteSize_append] at finish
      have none : over' = [] := byteSize_eq_zero.mp (by omega)
      rw [none] at finish ⊢
      refine ⟨[], by simp, ?_⟩
      simp only [byteSize] at finish ⊢
      omega
  · rintro ⟨t, rfl, rfl⟩
    rw [byteSize_append] at size ⊢
    refine ⟨before, t ++ after, ?_, by omega, ?_, by omega⟩
    · rw [split]
      simp only [List.append_assoc]
    · rw [byteSize_append]
      omega

theorem iterate_offsets {R : List Char → List Char → Prop} {S : Nat → Nat → Prop}
    (suffix : ∀ s t, R s t → t <:+ s) (same : ∀ {s j}, EndsAt text stop s →
      (S (stop - byteSize s) j ↔ ∃ t, R s t ∧ j = stop - byteSize t))
    (h : EndsAt text stop s) (n : Nat) :
    Iterate S n (stop - byteSize s) j ↔ ∃ t, Iterate R n s t ∧ j = stop - byteSize t := by
  induction n generalizing s with
  | zero => simp [Iterate, eq_comm]
  | succ n ih =>
    simp only [Iterate]
    constructor
    · rintro ⟨k, first, others⟩
      obtain ⟨u, front, rfl⟩ := (same h).mp first
      obtain ⟨t, back, rfl⟩ := (ih (h.suffix (suffix s u front))).mp others
      exact ⟨t, ⟨u, front, back⟩, rfl⟩
    · rintro ⟨t, ⟨u, first, others⟩, rfl⟩
      exact ⟨_, (same h).mpr ⟨u, first, rfl⟩,
        (ih (h.suffix (suffix s u first))).mpr ⟨t, others, rfl⟩⟩

end

namespace Expr

variable {text : String} {stop : Nat}

mutual

theorem matchesBetween_iff : (e : Expr) → ∀ {s j}, EndsAt text stop s →
    (e.MatchesBetween text stop (stop - byteSize s) j ↔
      ∃ t, e.Matches s t ∧ j = stop - byteSize t)
  | charClass c, s, j, h => by
    simp only [MatchesBetween, Matches, reads_iff h, List.singleton_append]
    constructor
    · rintro ⟨x, hx, t, rfl, rfl⟩
      exact ⟨t, ⟨x, hx, rfl⟩, rfl⟩
    · rintro ⟨t, ⟨x, hx, rfl⟩, rfl⟩
      exact ⟨x, hx, t, rfl, rfl⟩
  | literal cs, s, j, h => by simp only [MatchesBetween, Matches, reads_iff h]
  | sequence items, s, j, h => by
    simp only [MatchesBetween, Matches]
    exact matchesAllBetween_iff items h
  | alternatives items, s, j, h => by
    simp only [MatchesBetween, Matches]
    exact matchesAnyBetween_iff items h
  | repetition body min max, s, j, h => by
    have same := iterate_offsets (j := j) (Matches.suffix body) (matchesBetween_iff body) h
    simp only [MatchesBetween, Matches, same]
    constructor
    · rintro ⟨n, ge, le, t, rounds, rfl⟩
      exact ⟨t, ⟨n, ge, le, rounds⟩, rfl⟩
    · rintro ⟨t, ⟨n, ge, le, rounds⟩, rfl⟩
      exact ⟨n, ge, le, t, rounds, rfl⟩
  | lookahead body negated, s, j, h => by
    have found : (∃ k, body.MatchesBetween text stop (stop - byteSize s) k) ↔
        ∃ u, body.Matches s u := by
      simp only [matchesBetween_iff body h]
      constructor
      · rintro ⟨k, u, hu, -⟩
        exact ⟨u, hu⟩
      · rintro ⟨u, hu⟩
        exact ⟨_, u, hu, rfl⟩
    simp only [MatchesBetween, Matches, found]
    constructor
    · rintro ⟨rfl, holds⟩
      exact ⟨s, ⟨rfl, holds⟩, rfl⟩
    · rintro ⟨t, ⟨rfl, holds⟩, rfl⟩
      exact ⟨rfl, holds⟩

theorem matchesAllBetween_iff : (es : List Expr) → ∀ {s j}, EndsAt text stop s →
    (MatchesAllBetween text stop es (stop - byteSize s) j ↔
      ∃ t, MatchesInTurn es s t ∧ j = stop - byteSize t)
  | [], s, j, h => by simp [MatchesAllBetween, MatchesInTurn, eq_comm]
  | e :: es, s, j, h => by
    simp only [MatchesAllBetween, MatchesInTurn]
    constructor
    · rintro ⟨k, first, others⟩
      obtain ⟨u, front, rfl⟩ := (matchesBetween_iff e h).mp first
      obtain ⟨t, back, rfl⟩ :=
        (matchesAllBetween_iff es (h.suffix (Matches.suffix e s u front))).mp others
      exact ⟨t, ⟨u, front, back⟩, rfl⟩
    · rintro ⟨t, ⟨u, first, others⟩, rfl⟩
      exact ⟨_, (matchesBetween_iff e h).mpr ⟨u, first, rfl⟩,
        (matchesAllBetween_iff es (h.suffix (Matches.suffix e s u first))).mpr ⟨t, others, rfl⟩⟩

theorem matchesAnyBetween_iff : (es : List Expr) → ∀ {s j}, EndsAt text stop s →
    (MatchesAnyBetween text stop es (stop - byteSize s) j ↔
      ∃ t, MatchesAny es s t ∧ j = stop - byteSize t)
  | [], s, j, h => by simp [MatchesAnyBetween, MatchesAny]
  | e :: es, s, j, h => by
    simp only [MatchesAnyBetween, MatchesAny, matchesBetween_iff e h, matchesAnyBetween_iff es h,
      or_and_right, exists_or]

end

/-- Whether an expression matches at all can be told by either. -/
theorem exists_matchesBetween_iff {e : Expr} {s : List Char} (h : EndsAt text stop s) :
    (∃ k, e.MatchesBetween text stop (stop - byteSize s) k) ↔ ∃ t, e.Matches s t := by
  simp only [matchesBetween_iff e h]
  constructor
  · rintro ⟨_, t, ht, _⟩
    exact ⟨t, ht⟩
  · rintro ⟨t, ht⟩
    exact ⟨_, t, ht, rfl⟩

end Expr

end PatternAutomata
