import PatternAutomata.Proofs.Configurations
import PatternAutomata.Proofs.Regexes

/-!
# Any way to nest

An automaton is constructed with nested automata that come from elsewhere. If they find a match
exactly where the bodies of their lookaheads match, then the automaton finds what its expression
matches, in every form it is brought to (`find?_construct`). It plays no part whether the
lookaheads with the same body share a nested automaton.
-/
namespace PatternAutomata.Graph

variable {e : Expr} {tag : Nat} {mode : Mode} {nest : Nat → Expr → Nested} {input : Input}
  {window : List Char}

/-- The nested automata that are made for the lookaheads of an expression find a match from a place
of a span exactly if the bodies match from there. A lookahead that the construction comes to several
times may get several nested automata, told apart by the numbers of their transitions. -/
def Faithful (tag : Nat) (mode : Mode) (nest : Nat → Expr → Nested) (e : Expr) (input : Input) :
    Prop :=
  ∀ t n, (t, n) ∈ (Graph.ofExpr tag mode e).liveTransitions → ∀ body negated,
    t.condition = .check body mode negated → ∀ i, input.span.start ≤ i →
      (input.ahead i).isValid = true →
        ∃ r, (nest n body).automaton.find? mode (input.ahead i) = .ok r ∧
          (r.isSome = true ↔ ∃ k, body.MatchesBetween input.text input.span.stop i k)

open Classical in
/-- Lookaheads are answered by what their bodies match. -/
noncomputable def truth : Probe Expr := fun body _ u =>
  .ok (Decidable.decide (∃ v, body.Matches u v))

theorem truth_spec (body : Expr) (mode : Mode) (u : List Char) : ∃ found,
    truth body mode u = .ok found ∧ (found = true ↔ ∃ v, body.Matches u v) := by
  classical
  exact ⟨_, rfl, decide_eq_true_iff⟩

section
variable (sound : e.fault? = none)
include sound

theorem constructed (tag : Nat) (mode : Mode) :
    Constructed truth mode e (Graph.ofExpr tag mode e) :=
  constructed_ofExpr (Expr.wellFormed_of_fault? sound) (fun body _ _ => truth_spec body mode) tag

/-- Checks are about the lookaheads of the expression and are run in the given mode. -/
theorem drawn_of_live {t : Transition Expr} {n : Nat}
    (ht : (t, n) ∈ (Graph.ofExpr tag mode e).liveTransitions) {body : Expr} {m : Mode}
    {negated : Bool} (hc : t.condition = .check body m negated) :
    m = mode ∧ .lookahead body negated ∈ e.walk := by
  have made := constructed sound tag mode
  have drawn := made.drawn t.source t (made.intact.outgoing_of_live ht)
  rwa [hc] at drawn

theorem accepts_ofExpr {pos : Nat} : (Graph.ofExpr tag mode e).Accepts truth window pos ↔
    ∃ v, e.Matches window v ∧ pos + v.length = window.length := by
  obtain ⟨i, initial, same⟩ := (constructed sound tag mode).initial
  exact accepts_iff_of_ends initial (same window)

/-- Faithful nested automata answer like the bodies of their lookaheads. -/
theorem Faithful.answersLike (h : Faithful tag mode nest e input)
    (hw : input.window? = some window) :
    (Graph.ofExpr tag mode e).AnswersLike nest Nested.probe truth window := by
  intro t n ht body m negated hc u hu
  obtain ⟨rfl, -⟩ := drawn_of_live sound ht hc
  have ends := endsAt_suffix hw hu
  have ahead := window?_ahead ends
  have inside : input.span.start ≤ input.span.stop - byteSize u := by
    obtain ⟨taken, rfl⟩ := hu
    rw [start_eq hw, byteSize_append]
    omega
  have valid : (input.ahead (input.span.stop - byteSize u)).isValid = true := by
    rw [Input.isValid, ahead]
    rfl
  obtain ⟨r, found, same⟩ := h t n ht body negated hc _ inside valid
  obtain ⟨found', told, same'⟩ := truth_spec body m u
  rw [(probe_eq_find? ahead (nest n body) m).mpr ⟨r, found, rfl⟩, told]
  apply congrArg
  rw [Bool.eq_iff_iff, same, same', Expr.exists_matchesBetween_iff ends]

end

section
variable {g : Automaton} {i : Nat} {P : Nat → Prop} {n : Option Nat}

/-- A search by backtracking finds the end that is asked for among those that the automaton accepts
at. -/
theorem find?_nfa_of_extreme (hg : g.Intact) (initial : g.initial = some i)
    (hw : input.window? = some window) (answers : g.Answers Nested.probe window)
    (accepts : ∀ pos, g.Accepts Nested.probe window pos ↔ P pos)
    (extreme : IsExtreme input.earliest P n) :
    g.find? .nfa input = .ok (n.map (input.taken window)) := by
  obtain ⟨n', found, extreme'⟩ := find?_nfa hg initial hw answers
  cases (extreme'.congr accepts).unique extreme
  exact found

theorem find?_dfa_of_extreme (hg : g.Intact) (initial : g.initial = some i)
    (hw : input.window? = some window) (single : g.Single Nested.probe input.earliest window i)
    (accepts : ∀ pos, g.Accepts Nested.probe window pos ↔ P pos)
    (extreme : IsExtreme input.earliest P n) :
    g.find? .dfa input = .ok (n.map (input.taken window)) := by
  obtain ⟨n', found, extreme'⟩ := find?_single hg initial hw dfa_ne_nfa single
  cases (extreme'.congr accepts).unique extreme
  exact found

/-- An automaton is transformed step by step. Where its nested automata answer, all the automata
find the same end, the deterministic ones along a single way. -/
theorem find?_stages (hg : g.Intact) (initial : g.initial = some i) (t₁ t₂ t₃ : Nat) :
    ∃ h d m, g.removeEpsilon t₁ = .ok h ∧ h.determinize t₂ = .ok d ∧ d.minimize t₃ = .ok m ∧
      ∀ {input : Input} {window : List Char}, input.window? = some window →
        g.Answers Nested.probe window → ∃ n,
          IsExtreme input.earliest (g.Accepts Nested.probe window) n ∧
          g.find? .nfa input = .ok (n.map (input.taken window)) ∧
          h.find? .nfa input = .ok (n.map (input.taken window)) ∧
          d.find? .dfa input = .ok (n.map (input.taken window)) ∧
          m.find? .dfa input = .ok (n.map (input.taken window)) := by
  obtain ⟨h, free, without⟩ := removeEpsilon_spec hg initial t₁
  obtain ⟨j, start, same⟩ := without.start initial
  obtain ⟨d, b, ok, det⟩ := determinize_spec without.intact start t₂
  obtain ⟨m, least, quotient⟩ := minimize_spec det.intact_graph det.initial t₃
  refine ⟨h, d, m, free, ok, least, ?_⟩
  intro input window hw answers
  obtain ⟨n, found, extreme⟩ := find?_nfa hg initial hw answers
  have answers' := without.answers answers
  have single := det.single (fun s t ht => (without.conditions s t ht).1) answers' input.earliest
  have accepts (pos : Nat) :
      h.Accepts Nested.probe window pos ↔ g.Accepts Nested.probe window pos :=
    accepts_congr start initial (same _)
  have accepts' (pos : Nat) :
      d.Accepts Nested.probe window pos ↔ g.Accepts Nested.probe window pos :=
    (det.accepts_iff start answers').trans (accepts pos)
  refine ⟨n, extreme, found, ?_, ?_, ?_⟩
  · exact find?_nfa_of_extreme without.intact start hw answers' accepts extreme
  · exact find?_dfa_of_extreme det.intact_graph det.initial hw single accepts' extreme
  · exact find?_dfa_of_extreme quotient.intact_graph quotient.initial hw (quotient.single single)
      (fun pos => (quotient.accepts_iff det.initial).trans (accepts' pos)) extreme

end

/-- A well-formed expression can be constructed with nested automata of any making, and the result
can be freed of sigma transitions, made deterministic and minimized. As long as the nested automata
are faithful, all of these find the last byte offset up to which the expression matches, or the
first one if that is asked for. -/
theorem find?_construct (sound : e.fault? = none) (tag : Nat) (mode : Mode)
    (nest : Nat → Expr → Nested) (t₁ t₂ t₃ : Nat) :
    ∃ g h d m, construct tag mode nest e = .ok g ∧ g.removeEpsilon t₁ = .ok h ∧
      h.determinize t₂ = .ok d ∧ d.minimize t₃ = .ok m ∧
      ∀ input, input.isValid = true → Faithful tag mode nest e input → ∃ found,
        IsExtreme input.earliest (e.MatchesBetween input.text input.span.stop input.span.start)
          found ∧
        g.find? .nfa input = .ok (found.map input.upTo) ∧
        h.find? .nfa input = .ok (found.map input.upTo) ∧
        d.find? .dfa input = .ok (found.map input.upTo) ∧
        m.find? .dfa input = .ok (found.map input.upTo) := by
  have made := constructed sound tag mode
  obtain ⟨i, initial, -⟩ := made.initial
  have initial' : ((Graph.ofExpr tag mode e).mapNested nest).initial = some i := initial
  obtain ⟨h, d, m, free, ok, least, finds⟩ :=
    find?_stages made.intact.mapNested initial' t₁ t₂ t₃
  refine ⟨_, h, d, m, ?_, free, ok, least, ?_⟩
  · unfold construct
    rw [sound]
  · intro input valid faithful
    obtain ⟨window, hw⟩ := Option.isSome_iff_exists.mp valid
    have like := faithful.answersLike sound hw
    have answers : (Graph.ofExpr tag mode e).Answers truth window := by
      intro _ _ _ body m _ _ u _
      obtain ⟨found, told, -⟩ := truth_spec body m u
      exact ⟨found, told⟩
    obtain ⟨n, extreme, found⟩ := finds hw (like.answers made.intact answers)
    have offset : n.map (input.taken window) =
        (n.map fun n => input.span.start + byteSize (window.take n)).map input.upTo := by
      cases n <;> rfl
    rw [offset] at found
    refine ⟨_, Input.isExtreme_span hw (extreme.congr fun pos => ?_), found⟩
    exact (like.accepts made.intact).trans (accepts_ofExpr sound)

/-- A nested automaton that is compiled anew for each lookahead. -/
def anew (mode : Mode) (n : Nat) (body : Expr) : Nested :=
  .of ((compile (n + 1) mode body).toOption.getD (empty 0))

/-- Compiled nested automata are faithful. -/
theorem faithful_anew (sound : e.fault? = none) (tag : Nat) (mode : Mode) (input : Input) :
    Faithful tag mode (anew mode) e input := by
  intro t n ht body negated hc i _ valid
  obtain ⟨-, member⟩ := drawn_of_live sound ht hc
  obtain ⟨g, _, ok, -⟩ := compile_spec (Expr.fault?_body sound member) (n + 1) mode
  have held : (anew mode n body).automaton = g := by
    simp [anew, ok, Except.toOption, Nested.automaton]
  obtain ⟨found, searched, extreme⟩ := find?_compile ok valid
  refine ⟨_, held ▸ searched, ?_⟩
  rw [Option.isSome_map]
  cases found with
  | none =>
    refine iff_of_false Bool.false_ne_true ?_
    rintro ⟨k, hk⟩
    exact extreme k hk
  | some j => exact iff_of_true rfl ⟨j, extreme.1⟩

open Regex in
theorem find?_construct_lettersBefore : lettersBefore.fault? = none ∧
    (Input.ofText "aab").isValid = true ∧
    Faithful 0 .dfa (anew .dfa) lettersBefore (.ofText "aab") ∧
    ∃ g h d m, construct 0 .dfa (anew .dfa) lettersBefore = .ok g ∧
      g.removeEpsilon 100 = .ok h ∧ h.determinize 101 = .ok d ∧ d.minimize 102 = .ok m ∧
      g.find? .nfa (.ofText "aab") = .ok (some ⟨"aab", ⟨0, 2⟩⟩) ∧
      h.find? .nfa (.ofText "aab") = .ok (some ⟨"aab", ⟨0, 2⟩⟩) ∧
      d.find? .dfa (.ofText "aab") = .ok (some ⟨"aab", ⟨0, 2⟩⟩) ∧
      m.find? .dfa (.ofText "aab") = .ok (some ⟨"aab", ⟨0, 2⟩⟩) := by
  have sound : lettersBefore.fault? = none := by decide
  have valid := Input.isValid_ofText "aab"
  have faithful := faithful_anew sound 0 .dfa (.ofText "aab")
  obtain ⟨g, h, d, m, made, free, ok, least, finds⟩ :=
    find?_construct sound 0 .dfa (anew .dfa) 100 101 102
  obtain ⟨found, extreme, same⟩ := finds (.ofText "aab") valid faithful
  cases extreme.unique isExtreme_lettersBefore
  exact ⟨sound, valid, faithful, g, h, d, m, made, free, ok, least, same⟩

end PatternAutomata.Graph
