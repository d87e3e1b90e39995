import PatternAutomata.Construction.Compiled
import PatternAutomata.Proofs.Built
import PatternAutomata.Proofs.Paths

/-!
# The pieces that expressions become

Every step of the construction appends a piece, and what the piece of an expression consumes is
what the expression matches (`makes_ofExpr`). Checks are run by a probe, which has to tell the
truth about the bodies of the lookaheads that occur.
-/
namespace PatternAutomata

/-- The condition is one that the expressions ask for, with checks in the given mode. -/
def Condition.Drawn (mode : Mode) (es : List Expr) : Condition Expr → Prop
  | char _ => True
  | set s => ∃ c, Expr.charClass c ∈ es ∧ c.chars = s
  | sigma => True
  | check body m negated => m = mode ∧ Expr.lookahead body negated ∈ es

/-- Nothing is wrong with any of the expressions themselves. -/
def WellFormed (es : List Expr) : Prop := ∀ e ∈ es, e.ownFault? = none

/-- The probe finds a match of the body of a lookahead exactly if there is one. -/
def Truthful (probe : Probe Expr) (mode : Mode) (es : List Expr) : Prop :=
  ∀ body negated, Expr.lookahead body negated ∈ es → ∀ u, ∃ found,
    probe body mode u = .ok found ∧ (found = true ↔ ∃ v, body.Matches u v)

namespace Draft

/-- The draft with one more state. -/
def grown (d : Draft) : Draft := ⟨d.size + 1, d.edges⟩

/-- The draft with one more edge. -/
def linked (d : Draft) (source target : Nat) (c : Condition Expr) : Draft :=
  ⟨d.size, d.edges.push ⟨source, target, c⟩⟩

@[simp]
theorem size_grown (d : Draft) : d.grown.size = d.size + 1 := rfl

/-- A draft becomes another one by some edges, which the given expressions ask for, and by
states. -/
structure Adds (mode : Mode) (es : List Expr) (d d' : Draft) (E : List (Edge Expr)) : Prop where
  edges : d'.edges.toList = d.edges.toList ++ E
  drawn : ∀ e ∈ E, e.condition.Drawn mode es

namespace Adds

variable {mode : Mode} {es : List Expr} {d d' d'' : Draft} {E F : List (Edge Expr)}

theorem refl (d : Draft) : Adds mode es d d [] := ⟨by simp, by simp⟩

theorem trans (h : Adds mode es d d' E) (k : Adds mode es d' d'' F) :
    Adds mode es d d'' (E ++ F) where
  edges := by rw [k.edges, h.edges, List.append_assoc]
  drawn e he := (List.mem_append.mp he).elim (h.drawn e) (k.drawn e)

theorem grown (h : Adds mode es d d' E) : Adds mode es d d'.grown E := ⟨h.edges, h.drawn⟩

theorem linked (h : Adds mode es d d' E) {c : Condition Expr} (drawn : c.Drawn mode es)
    (s t : Nat) : Adds mode es d (d'.linked s t c) (E ++ [⟨s, t, c⟩]) where
  edges := by simp [Draft.linked, h.edges]
  drawn := by
    intro e he
    rcases List.mem_append.mp he with he | he
    · exact h.drawn e he
    · rw [List.mem_singleton.mp he]
      exact drawn

theorem sigma (h : Adds mode es d d' E) (s t : Nat) :
    Adds mode es d (d'.linked s t .sigma) (E ++ [⟨s, t, .sigma⟩]) :=
  h.linked (c := .sigma) trivial s t

end Adds

end Draft

namespace Fragment

open Draft (Adds)

variable {probe : Probe Expr} {mode : Mode} {es : List Expr}

/-- A step appends a piece to any draft, and the piece consumes what a relation says. -/
def Makes (probe : Probe Expr) (mode : Mode) (es : List Expr) (step : Step Fragment)
    (L : List Char → List Char → Prop) : Prop :=
  ∀ d, ∃ E, Adds mode es d (step.run d).2 E ∧
    Piece probe d.size (step.run d).2.size E (step.run d).1 L

theorem Makes.congr {step : Step Fragment} {L M : List Char → List Char → Prop}
    (h : Makes probe mode es step L) (same : ∀ u v, L u v ↔ M u v) :
    Makes probe mode es step M := by
  intro d
  obtain ⟨E, adds, piece⟩ := h d
  exact ⟨E, adds, piece.congr same⟩

theorem makes_single {c : Condition Expr} (drawn : c.Drawn mode es) :
    Makes probe mode es (single c) (c.Leads probe) := by
  intro d
  have state (n : Nat) : Piece probe n (n + 1) [] ⟨n, n⟩ (· = ·) := Piece.state n
  have piece := (state d.size).append (c := c) (state (d.size + 1))
    (G := [⟨d.size, d.size + 1, c⟩]) (by simp)
  refine ⟨_, (Adds.refl d).grown.grown.linked drawn d.size (d.size + 1), ?_⟩
  apply piece.congr
  intro u v
  simp

theorem run_chainFrom_cons (last : Nat) (c : Char) (rest : List Char) (d : Draft) :
    (chainFrom last (c :: rest)).run d =
      (chainFrom d.size rest).run (d.grown.linked last d.size (.char c)) := rfl

theorem chainFrom_spec (text : List Char) (last : Nat) (d : Draft) :
    ∃ F, Adds mode es d ((chainFrom last text).run d).2 F ∧
      ∀ {lo E entry L}, Piece probe lo d.size E ⟨entry, last⟩ L →
        Piece probe lo ((chainFrom last text).run d).2.size (E ++ F)
          ⟨entry, ((chainFrom last text).run d).1⟩ fun u v => L u (text ++ v) := by
  induction text generalizing last d with
  | nil =>
    refine ⟨[], Adds.refl d, ?_⟩
    intro lo E entry L piece
    exact (List.append_nil E).symm ▸ piece
  | cons c rest ih =>
    rw [run_chainFrom_cons]
    obtain ⟨F, adds, grows⟩ := ih d.size (d.grown.linked last d.size (.char c))
    refine ⟨_, ((Adds.refl d).grown.linked (c := .char c) trivial last d.size).trans adds, ?_⟩
    intro lo E entry L piece
    have longer := piece.append (c := .char c) (Piece.state d.size)
      (G := E ++ [⟨last, d.size, .char c⟩]) (by simp)
    have whole := grows longer
    rw [List.append_assoc] at whole
    apply whole.congr
    intro u v
    simp [Condition.Leads]

theorem run_chain (text : List Char) (d : Draft) : (chain text).run d =
    (⟨d.size, ((chainFrom d.size text).run d.grown).1⟩,
      ((chainFrom d.size text).run d.grown).2) := rfl

theorem makes_chain (text : List Char) :
    Makes probe mode es (chain text) fun u v => u = text ++ v := by
  intro d
  rw [run_chain]
  obtain ⟨F, adds, grows⟩ := @chainFrom_spec probe mode es text d.size d.grown
  exact ⟨_, (Adds.refl d).grown.trans adds, grows (Piece.state d.size)⟩

theorem exists_chain {A B C : List Char → List Char → Prop} {u v : List Char} :
    (∃ w, (∃ w', A u w' ∧ B w' w) ∧ C w v) ↔ ∃ w', A u w' ∧ ∃ w, B w' w ∧ C w v := by
  constructor
  · rintro ⟨w, ⟨w', first, second⟩, third⟩
    exact ⟨w', first, w, second, third⟩
  · rintro ⟨w', first, w, second, third⟩
    exact ⟨w, ⟨w', first, second⟩, third⟩

/-- Steps append the pieces of expressions. -/
abbrev MakesAll (probe : Probe Expr) (mode : Mode) (es : List Expr) :
    List (Step Fragment) → List Expr → Prop :=
  List.Forall₂ fun step e => Makes probe mode es step e.Matches

theorem run_appendFrom_cons (exit : Nat) (item : Step Fragment) (rest : List (Step Fragment))
    (d : Draft) : (appendFrom exit (item :: rest)).run d =
      (appendFrom (item.run d).1.exit rest).run
        ((item.run d).2.linked exit (item.run d).1.entry .sigma) := rfl

theorem appendFrom_spec {steps : List (Step Fragment)} {items : List Expr}
    (h : MakesAll probe mode es steps items) (exit : Nat) (d : Draft) :
    ∃ F, Adds mode es d ((appendFrom exit steps).run d).2 F ∧
      ∀ {lo E entry L}, Piece probe lo d.size E ⟨entry, exit⟩ L →
        Piece probe lo ((appendFrom exit steps).run d).2.size (E ++ F)
          ⟨entry, ((appendFrom exit steps).run d).1⟩
          fun u v => ∃ w, L u w ∧ Expr.MatchesInTurn items w v := by
  induction h generalizing exit d with
  | nil =>
    refine ⟨[], Adds.refl d, ?_⟩
    intro lo E entry L piece
    rw [List.append_nil]
    apply piece.congr
    intro u v
    simp [Expr.MatchesInTurn]
  | @cons step e steps items makes _ ih =>
    rw [run_appendFrom_cons]
    obtain ⟨F, adds, item⟩ := makes d
    obtain ⟨F', adds', grows⟩ :=
      ih (step.run d).1.exit ((step.run d).2.linked exit (step.run d).1.entry .sigma)
    refine ⟨_, (adds.sigma exit _).trans adds', ?_⟩
    intro lo E entry L piece
    have longer := piece.append_sigma item
      (G := E ++ (F ++ [⟨exit, (step.run d).1.entry, .sigma⟩])) (by simp)
    have whole := grows longer
    rw [List.append_assoc] at whole
    apply whole.congr
    intro u v
    simp only [Expr.MatchesInTurn]
    exact exists_chain

theorem run_inSequence_cons (item : Step Fragment) (rest : List (Step Fragment)) (d : Draft) :
    (inSequence (item :: rest)).run d =
      (⟨(item.run d).1.entry, ((appendFrom (item.run d).1.exit rest).run (item.run d).2).1⟩,
        ((appendFrom (item.run d).1.exit rest).run (item.run d).2).2) := rfl

theorem makes_inSequence {steps : List (Step Fragment)} {items : List Expr}
    (h : MakesAll probe mode es steps items) :
    Makes probe mode es (inSequence steps) (Expr.MatchesInTurn items) := by
  cases h with
  | nil =>
    apply (makes_chain []).congr
    intro u v
    simp [Expr.MatchesInTurn]
  | @cons step e steps items makes others =>
    intro d
    rw [run_inSequence_cons]
    obtain ⟨E, adds, item⟩ := makes d
    obtain ⟨F, adds', grows⟩ := appendFrom_spec others (step.run d).1.exit (step.run d).2
    exact ⟨_, adds.trans adds', grows item⟩

theorem run_branches_cons (entry exit : Nat) (item : Step Fragment)
    (rest : List (Step Fragment)) (d : Draft) : (branches entry exit (item :: rest)).run d =
      (branches entry exit rest).run (((item.run d).2.linked entry (item.run d).1.entry
        .sigma).linked (item.run d).1.exit exit .sigma) := rfl

theorem branches_spec {steps : List (Step Fragment)} {items : List Expr}
    (h : MakesAll probe mode es steps items) (entry exit : Nat) (d : Draft) :
    ∃ F, Adds mode es d ((branches entry exit steps).run d).2 F ∧
      ∀ {lo E B}, Stage probe lo d.size E entry entry exit (· = ·) B →
        Stage probe lo ((branches entry exit steps).run d).2.size (E ++ F) entry entry exit (· = ·)
          (fun u v => B u v ∨ Expr.MatchesAny items u v) ∧
        (items ≠ [] ∨ Links E entry exit → Links (E ++ F) entry exit) := by
  induction h generalizing d with
  | nil =>
    refine ⟨[], Adds.refl d, ?_⟩
    intro lo E B stage
    rw [List.append_nil]
    refine ⟨?_, by simp⟩
    simp only [Expr.MatchesAny, or_false]
    exact stage
  | @cons step e steps items makes _ ih =>
    rw [run_branches_cons]
    obtain ⟨F, adds, item⟩ := makes d
    obtain ⟨F', adds', grows⟩ := ih (((step.run d).2.linked entry (step.run d).1.entry
      .sigma).linked (step.run d).1.exit exit .sigma)
    refine ⟨_, ((adds.sigma entry _).sigma _ exit).trans adds', ?_⟩
    intro lo E B stage
    obtain ⟨next, closed⟩ := stage.branch item (G := E ++ (F ++ [⟨entry, (step.run d).1.entry,
      .sigma⟩] ++ [⟨(step.run d).1.exit, exit, .sigma⟩])) (by simp)
    obtain ⟨whole, links⟩ := grows next
    rw [List.append_assoc E] at whole links
    refine ⟨?_, fun _ => links (.inr closed)⟩
    simpa only [Expr.MatchesAny, exists_eq_left', or_assoc] using whole

theorem run_sideBySide (items : List (Step Fragment)) (d : Draft) :
    (sideBySide items).run d = (⟨d.size, d.size + 1⟩,
      ((branches d.size (d.size + 1) items).run d.grown.grown).2) := rfl

theorem makes_sideBySide {steps : List (Step Fragment)} {items : List Expr}
    (h : MakesAll probe mode es steps items) (ne : items ≠ []) :
    Makes probe mode es (sideBySide steps) (Expr.MatchesAny items) := by
  intro d
  rw [run_sideBySide]
  obtain ⟨F, adds, grows⟩ := branches_spec h d.size (d.size + 1) d.grown.grown
  obtain ⟨whole, links⟩ := grows (Piece.state d.size).opened
  refine ⟨F, (Adds.refl d).grown.grown.trans adds, ?_⟩
  apply (whole.piece (links (.inl ne))).congr
  intro u v
  simp

section Repetition

variable {body : Step Fragment} {L : List Char → List Char → Prop}

theorem run_copies_succ (n tail : Nat) (last : Option Fragment) (d : Draft) :
    (copies body (n + 1) tail last).run d =
      (copies body n (body.run d).1.exit (some (body.run d).1)).run
        ((body.run d).2.linked tail (body.run d).1.entry .sigma) := rfl

theorem copies_spec (h : Makes probe mode es body L) (n tail : Nat) (last : Option Fragment)
    (d : Draft) : ∃ F, Adds mode es d ((copies body n tail last).run d).2 F ∧
      ∀ {lo E entry A}, Piece probe lo d.size E ⟨entry, tail⟩ A →
        Piece probe lo ((copies body n tail last).run d).2.size (E ++ F)
          ⟨entry, ((copies body n tail last).run d).1.1⟩
          fun u v => ∃ w, A u w ∧ Iterate L n w v := by
  induction n generalizing tail last d with
  | zero =>
    refine ⟨[], Adds.refl d, ?_⟩
    intro lo E entry A piece
    rw [List.append_nil]
    apply piece.congr
    intro u v
    simp [Iterate]
  | succ n ih =>
    rw [run_copies_succ]
    obtain ⟨F, adds, copy⟩ := h d
    obtain ⟨F', adds', grows⟩ := ih (body.run d).1.exit (some (body.run d).1)
      ((body.run d).2.linked tail (body.run d).1.entry .sigma)
    refine ⟨_, (adds.sigma tail _).trans adds', ?_⟩
    intro lo E entry A piece
    have longer := piece.append_sigma copy
      (G := E ++ (F ++ [⟨tail, (body.run d).1.entry, .sigma⟩])) (by simp)
    have whole := grows longer
    rw [List.append_assoc] at whole
    apply whole.congr
    intro u v
    simp only [Iterate]
    exact exists_chain

/-- The last copy comes after the others. -/
theorem run_copies_last (n tail : Nat) (last : Option Fragment) (d : Draft) :
    (copies body (n + 1) tail last).run d =
      let before := (copies body n tail last).run d
      let copy := body.run before.2
      ((copy.1.exit, some copy.1), copy.2.linked before.1.1 copy.1.entry .sigma) := by
  induction n generalizing tail last d with
  | zero => rfl
  | succ n ih =>
    rw [run_copies_succ, ih]
    rfl

theorem run_optionalCopies_succ (exit n tail : Nat) (d : Draft) :
    (optionalCopies body exit (n + 1) tail).run d =
      (optionalCopies body exit n (body.run d).1.exit).run
        (((body.run d).2.linked tail (body.run d).1.entry .sigma).linked tail exit .sigma) := rfl

theorem optionalCopies_spec (h : Makes probe mode es body L) (exit n tail : Nat) (d : Draft) :
    ∃ F, Adds mode es d ((optionalCopies body exit n tail).run d).2 F ∧
      ∀ {lo E entry A B}, Stage probe lo d.size E entry tail exit A B →
        Stage probe lo ((optionalCopies body exit n tail).run d).2.size (E ++ F) entry
          ((optionalCopies body exit n tail).run d).1 exit
          (fun u v => ∃ w, A u w ∧ Iterate L n w v)
          fun u v => B u v ∨ ∃ k < n, ∃ w, A u w ∧ Iterate L k w v := by
  induction n generalizing tail d with
  | zero =>
    refine ⟨[], Adds.refl d, ?_⟩
    intro lo E entry A B stage
    simp only [List.append_nil, Iterate, exists_eq_right, Nat.not_lt_zero, false_and, exists_false,
      or_false]
    exact stage
  | succ n ih =>
    rw [run_optionalCopies_succ]
    obtain ⟨F, adds, copy⟩ := h d
    obtain ⟨F', adds', grows⟩ := ih (body.run d).1.exit
      (((body.run d).2.linked tail (body.run d).1.entry .sigma).linked tail exit .sigma)
    refine ⟨_, ((adds.sigma tail _).sigma tail exit).trans adds', ?_⟩
    intro lo E entry A B stage
    have longer := stage.skip copy (G := E ++ (F ++ [⟨tail, (body.run d).1.entry, .sigma⟩] ++
      [⟨tail, exit, .sigma⟩])) (by simp)
    have whole := grows longer
    rw [List.append_assoc E] at whole
    apply whole.congr
    · intro u v
      simp only [Iterate]
      exact exists_chain
    · intro u v
      simp only [Nat.exists_lt_succ_left, Iterate, exists_eq_right, or_assoc, exists_chain]

theorem run_repeated_some (min max : Nat) (d : Draft) :
    (repeated body min (some max)).run d =
      let copied := (copies body min d.size none).run d.grown
      let optional := (optionalCopies body copied.2.size (max - min) copied.1.1).run copied.2.grown
      (⟨d.size, copied.2.size⟩, optional.2.linked optional.1 copied.2.size .sigma) := rfl

theorem run_repeated_none (min : Nat) (d : Draft) : (repeated body min none).run d =
    match (copies body min d.size none).run d.grown with
    | ((_, some f), d') => (⟨d.size, d'.size⟩,
      (d'.grown.linked f.exit f.entry .sigma).linked f.exit d'.size .sigma)
    | ((tail, none), d') =>
      let copy := body.run d'.grown
      (⟨d.size, d'.size⟩, (((copy.2.linked tail copy.1.entry .sigma).linked tail d'.size
        .sigma).linked copy.1.exit copy.1.entry .sigma).linked copy.1.exit d'.size .sigma) := by
  rcases h : (copies body min d.size none).run d.grown with ⟨⟨tail, last⟩, d'⟩
  have copied (k : Nat × Option Fragment → Step Fragment) :
      (copies body min d.size none >>= k).run d.grown = (k (tail, last)).run d' := by
    rw [StateT.run_bind, h]
    rfl
  unfold repeated
  rw [StateT.run_bind]
  refine (copied _).trans ?_
  cases last <;> rfl

theorem run_repeated_zero (d : Draft) : (repeated body 0 none).run d =
    let copy := body.run d.grown.grown
    (⟨d.size, d.size + 1⟩, (((copy.2.linked d.size copy.1.entry .sigma).linked d.size (d.size + 1)
      .sigma).linked copy.1.exit copy.1.entry .sigma).linked copy.1.exit (d.size + 1) .sigma) :=
  run_repeated_none 0 d

theorem run_repeated_succ (n : Nat) (d : Draft) : (repeated body (n + 1) none).run d =
    let before := (copies body n d.size none).run d.grown
    let copy := body.run before.2
    (⟨d.size, copy.2.size⟩, ((copy.2.linked before.1.1 copy.1.entry .sigma).grown.linked
      copy.1.exit copy.1.entry .sigma).linked copy.1.exit copy.2.size .sigma) := by
  rw [run_repeated_none, run_copies_last]
  rfl

theorem makes_repeated_some (h : Makes probe mode es body L) {min max : Nat} (le : min ≤ max) :
    Makes probe mode es (repeated body min (some max))
      fun u v => ∃ n, min ≤ n ∧ n ≤ max ∧ Iterate L n u v := by
  intro d
  rw [run_repeated_some]
  dsimp only
  obtain ⟨E, adds, grows⟩ := copies_spec h min d.size none d.grown
  generalize (copies body min d.size none).run d.grown = copied at adds grows ⊢
  obtain ⟨F, adds', grows'⟩ :=
    optionalCopies_spec h copied.2.size (max - min) copied.1.1 copied.2.grown
  generalize (optionalCopies body copied.2.size (max - min) copied.1.1).run copied.2.grown =
    optional at adds' grows' ⊢
  refine ⟨_, (((Adds.refl d).grown.trans adds).grown.trans adds').sigma _ _, ?_⟩
  have whole := (grows' (grows (Piece.state d.size)).opened).finish
    (G := [] ++ E ++ F ++ [⟨optional.1, copied.2.size, .sigma⟩]) (by simp [or_assoc])
  apply whole.congr
  intro u v
  simp only [exists_eq_left', false_or, ← iterate_add]
  constructor
  · rintro (⟨k, lt, rounds⟩ | rounds)
    · exact ⟨min + k, by omega, by omega, rounds⟩
    · exact ⟨min + (max - min), by omega, by omega, rounds⟩
  · rintro ⟨n, ge, bound, rounds⟩
    obtain ⟨k, rfl⟩ := Nat.exists_eq_add_of_le ge
    by_cases last : k = max - min
    · exact .inr (last ▸ rounds)
    · exact .inl ⟨k, by omega, rounds⟩

theorem makes_repeated_zero (h : Makes probe mode es body L) :
    Makes probe mode es (repeated body 0 none) fun u v => ∃ n, Iterate L n u v := by
  intro d
  rw [run_repeated_zero]
  dsimp only
  obtain ⟨E, adds, copy⟩ := h d.grown.grown
  generalize body.run d.grown.grown = made at adds copy ⊢
  refine ⟨_, ((((((Adds.refl d).grown.grown.trans adds).sigma _ _).sigma _ _).sigma _ _).sigma _
    _), ?_⟩
  have rounds := copy.loop (G := E ++ [⟨made.1.exit, made.1.entry, .sigma⟩]) (by simp)
  obtain ⟨stage, -⟩ := (Piece.state d.size).opened.branch rounds
    (G := E ++ [⟨made.1.exit, made.1.entry, .sigma⟩] ++ [⟨d.size, made.1.entry, .sigma⟩] ++
      [⟨made.1.exit, d.size + 1, .sigma⟩]) (by simp [or_assoc])
  have whole := stage.finish (G := [] ++ E ++ [⟨d.size, made.1.entry, .sigma⟩] ++
    [⟨d.size, d.size + 1, .sigma⟩] ++ [⟨made.1.exit, made.1.entry, .sigma⟩] ++
      [⟨made.1.exit, d.size + 1, .sigma⟩]) (by simp; grind)
  apply whole.congr
  intro u v
  simp only [exists_eq_left', false_or]
  constructor
  · rintro (⟨n, rounds⟩ | rfl)
    · exact ⟨n + 1, rounds⟩
    · exact ⟨0, rfl⟩
  · rintro ⟨n, rounds⟩
    cases n with
    | zero => exact .inr rounds
    | succ n => exact .inl ⟨n, rounds⟩

theorem makes_repeated_succ (h : Makes probe mode es body L) (n : Nat) :
    Makes probe mode es (repeated body (n + 1) none)
      fun u v => ∃ k, n + 1 ≤ k ∧ Iterate L k u v := by
  intro d
  rw [run_repeated_succ]
  dsimp only
  obtain ⟨E, adds, grows⟩ := copies_spec h n d.size none d.grown
  generalize (copies body n d.size none).run d.grown = before at adds grows ⊢
  obtain ⟨F, adds', copy⟩ := h before.2
  generalize body.run before.2 = made at adds' copy ⊢
  refine ⟨_, (((((Adds.refl d).grown.trans adds).trans adds').sigma _ _).grown.sigma _ _).sigma _ _,
    ?_⟩
  have rounds := copy.loop (G := F ++ [⟨made.1.exit, made.1.entry, .sigma⟩]) (by simp)
  have longer := (grows (Piece.state d.size)).append_sigma rounds
    (G := E ++ F ++ [⟨before.1.1, made.1.entry, .sigma⟩] ++
      [⟨made.1.exit, made.1.entry, .sigma⟩]) (by simp; grind)
  have whole := longer.append_sigma (Piece.state made.2.size)
    (G := [] ++ E ++ F ++ [⟨before.1.1, made.1.entry, .sigma⟩] ++
      [⟨made.1.exit, made.1.entry, .sigma⟩] ++ [⟨made.1.exit, made.2.size, .sigma⟩])
    (by simp [or_assoc])
  apply whole.congr
  intro u v
  simp only [exists_eq_left', exists_eq_right]
  constructor
  · rintro ⟨w, first, k, rounds⟩
    exact ⟨n + (k + 1), by omega, iterate_add.mpr ⟨w, first, rounds⟩⟩
  · rintro ⟨k, ge, rounds⟩
    obtain ⟨i, rfl⟩ := Nat.exists_eq_add_of_le ge
    have split : n + 1 + i = n + (i + 1) := by omega
    rw [split] at rounds
    obtain ⟨w, first, others⟩ := iterate_add.mp rounds
    exact ⟨w, first, i, others⟩

/-- At least `min` times, and at most `max` times if there is a bound. -/
theorem makes_repeated (h : Makes probe mode es body L) {min : Nat} {max : Option Nat}
    (bounds : ∀ m ∈ max, min ≤ m) : Makes probe mode es (repeated body min max)
      fun u v => ∃ n, min ≤ n ∧ (∀ m ∈ max, n ≤ m) ∧ Iterate L n u v := by
  cases max with
  | some max =>
    apply (makes_repeated_some h (bounds max rfl)).congr
    intro u v
    simp
  | none =>
    cases min with
    | zero =>
      apply (makes_repeated_zero h).congr
      intro u v
      simp
    | succ n =>
      apply (makes_repeated_succ h n).congr
      intro u v
      simp

end Repetition

mutual

/-- An expression becomes a piece that consumes what the expression matches. -/
theorem makes_ofExpr (sound : WellFormed es) (truthful : Truthful probe mode es) :
    (e : Expr) → e.walk ⊆ es → Makes probe mode es (ofExpr mode e) e.Matches
  | .charClass c, sub => by
    rw [ofExpr]
    apply (makes_single (c := .set c.chars) ⟨c, sub (by simp [Expr.walk]), rfl⟩).congr
    intro u v
    rw [Expr.Matches]
    rfl
  | .literal text, sub => by
    rw [ofExpr]
    apply (makes_chain text).congr
    intro u v
    rw [Expr.Matches]
  | .sequence items, sub => by
    rw [ofExpr]
    have parts := makes_ofExprs sound truthful items fun e he => sub (by simp [Expr.walk, he])
    apply (makes_inSequence parts).congr
    intro u v
    rw [Expr.Matches]
  | .alternatives items, sub => by
    rw [ofExpr]
    have parts := makes_ofExprs sound truthful items fun e he => sub (by simp [Expr.walk, he])
    have ne : items ≠ [] := by
      rintro rfl
      have own := sound (.alternatives []) (sub (by simp [Expr.walk]))
      cases own
    apply (makes_sideBySide parts ne).congr
    intro u v
    rw [Expr.Matches]
  | .repetition body min max, sub => by
    rw [ofExpr]
    have part := makes_ofExpr sound truthful body fun e he => sub (by simp [Expr.walk, he])
    have bounds : ∀ m ∈ max, min ≤ m := by
      intro m hm
      have own := sound (.repetition body min max) (sub (by simp [Expr.walk]))
      cases hm
      simp [Expr.ownFault?] at own
      omega
    apply (makes_repeated part bounds).congr
    intro u v
    rw [Expr.Matches]
  | .lookahead body negated, sub => by
    rw [ofExpr]
    have mem : Expr.lookahead body negated ∈ es := sub (by simp [Expr.walk])
    apply (makes_single (c := .check body mode negated) ⟨rfl, mem⟩).congr
    intro u v
    rw [Expr.Matches]
    obtain ⟨found, probed, told⟩ := truthful body negated mem u
    simp only [Condition.Leads, probed, ← told]
    cases found <;> cases negated <;> simp

theorem makes_ofExprs (sound : WellFormed es) (truthful : Truthful probe mode es) :
    (items : List Expr) → Expr.walkAll items ⊆ es →
      MakesAll probe mode es (ofExprs mode items) items
  | [], _ => by
    rw [ofExprs]
    exact .nil
  | e :: rest, sub => by
    rw [ofExprs]
    rw [Expr.walkAll] at sub
    exact .cons (makes_ofExpr sound truthful e fun _ he => sub (List.mem_append_left _ he))
      (makes_ofExprs sound truthful rest fun _ he => sub (List.mem_append_right _ he))

end

end Fragment

/-- Some text is consumed where the condition holds, whatever comes after it. -/
def Condition.Passable (probe : Probe ν) (c : Condition ν) : Prop :=
  ∃ u, ∀ v, c.Leads probe (u ++ v) v

namespace Graph

open Fragment hiding Path

/-- The automaton of an expression accepts what the expression matches. -/
structure Constructed (probe : Probe Expr) (mode : Mode) (e : Expr) (g : Graph Expr) :
    Prop where
  intact : g.Intact
  initial : ∃ i, g.initial = some i ∧ ∀ u v, g.Ends probe i u v ↔ e.Matches u v
  drawn : ∀ s, ∀ t ∈ g.outgoing s, t.condition.Drawn mode e.walk
  productive : (∀ c : Condition Expr, c.Drawn mode e.walk → c.Passable probe) →
    ∀ s, g.IsLive s → ∃ u, g.Ends probe s u []

section

variable {probe : Probe Expr} {tag : Nat} {accepting : List Bool} {E : List (Edge Expr)}
  {initial : Option Nat}

theorem mem_outgoing_build (joins : Joins accepting.length E) {s : Nat} {t : Transition Expr} :
    t ∈ (build tag accepting E initial).outgoing s ↔ ∃ e ∈ E, e.source = s ∧ ⟨e, false⟩ = t := by
  rw [outgoing_build joins, List.mem_map]
  simp only [List.mem_filter, beq_iff_eq, and_assoc]

theorem runs_build (joins : Joins accepting.length E) :
    (build tag accepting E initial).Runs probe = Fragment.Path probe E := by
  unfold Runs Fragment.Path
  congr 1
  funext a b
  apply propext
  constructor
  · rintro ⟨t, ht, target, leads⟩
    obtain ⟨e, he, source, rfl⟩ := (mem_outgoing_build joins).mp ht
    exact ⟨e, he, source, target, leads⟩
  · rintro ⟨e, he, source, target, leads⟩
    exact ⟨⟨e, false⟩, (mem_outgoing_build joins).mpr ⟨e, he, source, rfl⟩, target, leads⟩

theorem exists_path_of_links (passable : ∀ e ∈ E, e.condition.Passable probe) {s t : Nat}
    (links : Links E s t) : ∃ u, ∀ v, Fragment.Path probe E (s, u ++ v) (t, v) := by
  induction links using Relation.ReflTransGen.head_induction_on with
  | refl => exact ⟨[], fun v => .refl⟩
  | head joined _ ih =>
    obtain ⟨e, he, rfl, rfl⟩ := joined
    obtain ⟨u, rest⟩ := ih
    obtain ⟨w, leads⟩ := passable e he
    refine ⟨w ++ u, fun v => ?_⟩
    rw [List.append_assoc]
    exact (Fragment.Path.edge he (leads (u ++ v))).trans (rest v)

end

theorem constructed_ofExpr {probe : Probe Expr} {mode : Mode} {e : Expr}
    (sound : WellFormed e.walk) (truthful : Truthful probe mode e.walk) (tag : Nat) :
    Constructed probe mode e (Graph.ofExpr tag mode e) := by
  obtain ⟨E, adds, piece⟩ := makes_ofExpr sound truthful e (fun _ he => he) ⟨0, #[]⟩
  unfold Graph.ofExpr
  generalize (Fragment.ofExpr mode e).run ⟨0, #[]⟩ = made at adds piece ⊢
  obtain ⟨f, d⟩ := made
  have edges : d.edges.toList = E := adds.edges
  simp only [edges] at piece ⊢
  have size : ((List.range d.size).map (· == f.exit)).length = d.size := by simp
  have joins : Joins ((List.range d.size).map (· == f.exit)).length E := by
    intro e' he
    have := piece.within e' he
    omega
  have accepting (s : Nat) : (build tag ((List.range d.size).map (· == f.exit)) E
      (some f.entry)).isAccepting s = true ↔ s = f.exit :=
    isAccepting_build_single piece.exit.2
  have ends (s : Nat) (u v : List Char) : (build tag ((List.range d.size).map (· == f.exit)) E
      (some f.entry)).Ends probe s u v ↔ Fragment.Path probe E (s, u) (f.exit, v) := by
    unfold Ends
    simp only [accepting, exists_eq_right, runs_build joins]
  refine ⟨?_, ⟨f.entry, rfl, ?_⟩, ?_, ?_⟩
  · apply intact_build joins
    intro s hs
    cases hs
    rw [size]
    exact piece.entry.2
  · intro u v
    rw [ends, piece.spans]
  · intro s t ht
    obtain ⟨e', he, -, rfl⟩ := (mem_outgoing_build joins).mp ht
    exact adds.drawn e' he
  · intro passable s live
    have lt : s < d.size := size ▸ isLive_build.mp live
    obtain ⟨u, path⟩ := exists_path_of_links
      (fun e' he => passable e'.condition (adds.drawn e' he))
      (piece.open_ended s (Nat.zero_le s) lt)
    refine ⟨u, (ends s u []).mpr ?_⟩
    have whole := path []
    rwa [List.append_nil] at whole

end Graph

end PatternAutomata
