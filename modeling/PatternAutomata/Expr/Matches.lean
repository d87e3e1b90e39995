import PatternAutomata.Expr.Basic

/-!
# What expressions match

An expression matches the front of a text and leaves the rest of it. This relation says what
expressions mean, without any automaton: `Matches.suffix` states that nothing but the front is
taken. Text that is behind has no influence, since no expression looks back.
-/
namespace PatternAutomata

/-- A number of steps of a relation in a row. -/
def Iterate (R : α → α → Prop) : Nat → α → α → Prop
  | 0, s, t => s = t
  | n + 1, s, t => ∃ u, R s u ∧ Iterate R n u t

theorem Iterate.suffix {R : List α → List α → Prop} (h : ∀ s t, R s t → t <:+ s) :
    ∀ {n s t}, Iterate R n s t → t <:+ s
  | 0, _, _, k => k ▸ List.suffix_rfl
  | _ + 1, _, _, ⟨_, r, k⟩ => (suffix h k).trans (h _ _ r)

namespace Expr

mutual

/-- The expression matches the front of the first text and leaves the second one. -/
def Matches : Expr → List Char → List Char → Prop
  | charClass c, s, t => ∃ x ∈ c.chars, s = x :: t
  | literal text, s, t => s = text ++ t
  | sequence items, s, t => MatchesInTurn items s t
  | alternatives items, s, t => MatchesAny items s t
  | repetition body min max, s, t =>
    ∃ n, min ≤ n ∧ (∀ m ∈ max, n ≤ m) ∧ Iterate (Matches body) n s t
  | lookahead body negated, s, t => s = t ∧ ((∃ u, Matches body s u) ↔ negated = false)

def MatchesInTurn : List Expr → List Char → List Char → Prop
  | [], s, t => s = t
  | e :: es, s, t => ∃ u, Matches e s u ∧ MatchesInTurn es u t

def MatchesAny : List Expr → List Char → List Char → Prop
  | [], _, _ => False
  | e :: es, s, t => Matches e s t ∨ MatchesAny es s t

end

mutual

theorem Matches.suffix : (e : Expr) → ∀ s t, e.Matches s t → t <:+ s
  | charClass _, _, _, ⟨x, _, h⟩ => h ▸ List.suffix_cons x _
  | literal text, _, _, h => by
    rw [Matches] at h
    exact h ▸ List.suffix_append text _
  | sequence items, s, t, h => suffixInTurn items s t h
  | alternatives items, s, t, h => suffixAny items s t h
  | repetition body _ _, _, _, ⟨_, _, _, h⟩ => h.suffix (Matches.suffix body)
  | lookahead _ _, _, _, h => h.1 ▸ List.suffix_rfl

theorem suffixInTurn : (es : List Expr) → ∀ s t, MatchesInTurn es s t → t <:+ s
  | [], _, _, h => by
    rw [MatchesInTurn] at h
    exact h ▸ List.suffix_rfl
  | e :: es, _, _, ⟨_, h, k⟩ => (suffixInTurn es _ _ k).trans (Matches.suffix e _ _ h)

theorem suffixAny : (es : List Expr) → ∀ s t, MatchesAny es s t → t <:+ s
  | [], _, _, h => h.elim
  | e :: es, _, _, h => h.elim (Matches.suffix e _ _) (suffixAny es _ _)

end

end Expr

end PatternAutomata
