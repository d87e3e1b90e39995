import PatternAutomata.Proofs.Canonical
import PatternAutomata.Proofs.Compiled
import PatternAutomata.Proofs.Discovery
import PatternAutomata.Proofs.Transforms

/-!
# Minimal automata of equivalent expressions

The minimal automaton of an expression without lookaheads is canonical (`exists_canonical`). Two
such expressions therefore match the same texts exactly if their minimal automata are the same up to
their tags (`compile_minimal`).
-/
namespace PatternAutomata

theorem CharSet.exists_mem {s : CharSet} (filled : s.isEmpty = false) : ∃ c, c ∈ s := by
  obtain ⟨rs, separated⟩ := s
  cases rs with
  | nil => cases filled
  | cons r rs =>
    have first : r.lo ∈ r := Interval.mem_iff.mpr ⟨Char.le_refl _, r.lo_le_hi⟩
    exact ⟨r.lo, r, List.mem_cons_self .., first⟩

namespace Expr

/-- No lookahead occurs in the expression, and every class in it has some character. -/
structure Plain (e : Expr) : Prop where
  free : e.hasLookahead = false
  filled : ∀ c, charClass c ∈ e.walk → c.chars.isEmpty = false

namespace Plain

variable {e : Expr}

theorem lookahead_not_mem (h : e.Plain) (body : Expr) (negated : Bool) :
    lookahead body negated ∉ e.walk := by
  intro mem
  have found : e.hasLookahead = true := List.any_eq_true.mpr ⟨_, mem, rfl⟩
  rw [h.free] at found
  cases found

theorem bodies_eq (h : e.Plain) : e.bodies = [] := by
  apply List.eq_nil_iff_forall_not_mem.mpr
  intro b hb
  obtain ⟨negated, mem⟩ := mem_bodiesIn.mp (mem_distinct.mp hb)
  exact h.lookahead_not_mem b negated mem

theorem truthful (h : e.Plain) (probe : Probe Expr) (mode : Mode) :
    Truthful probe mode e.walk := by
  intro body negated mem
  exact absurd mem (h.lookahead_not_mem body negated)

theorem passable (h : e.Plain) {probe : Probe Expr} {mode : Mode} {c : Condition Expr}
    (drawn : c.Drawn mode e.walk) : c.Passable probe := by
  cases c with
  | char c => exact ⟨[c], fun v => rfl⟩
  | set s =>
    obtain ⟨c, mem, rfl⟩ := drawn
    obtain ⟨x, hx⟩ := CharSet.exists_mem (h.filled c mem)
    exact ⟨[x], fun v => ⟨x, hx, rfl⟩⟩
  | sigma => exact ⟨[], fun v => rfl⟩
  | check body m negated => exact absurd drawn.2 (h.lookahead_not_mem body negated)

end Plain

end Expr

namespace Graph

variable {e : Expr} {tag : Nat} {mode : Mode} {g : Automaton} {text : List Char}

/-- What is prepared for an expression without lookaheads is all that its compilation reads. -/
theorem compile_of_prepare {m : Graph Expr} (plain : e.Plain) (sound : e.fault? = none)
    (prepared : (ofExpr tag mode e).prepare tag mode = .ok m) :
    compile tag mode e = .ok (m.fill ∅) := by
  unfold compile
  simp only [sound, plain.bodies_eq]
  change compileWith ∅ tag mode e = _
  unfold compileWith
  rw [prepared]
  rfl

section

variable {a h : Graph Expr} {probe : Probe Expr}

theorem consuming_of_plain (plain : e.Plain) (made : Constructed probe mode e a)
    (without : WithoutSigma a h) : h.Consuming := by
  intro p t ht
  obtain ⟨silent, s, r, hr, condition⟩ := without.conditions p t ht
  have drawn := made.drawn s r hr
  rw [condition] at drawn
  cases hc : t.condition with
  | char c => rfl
  | set s => rfl
  | sigma =>
    rw [hc] at silent
    cases silent
  | check body m negated =>
    rw [hc] at drawn
    exact absurd drawn.2 (plain.lookahead_not_mem body negated)

theorem productive_of_plain (plain : e.Plain) (made : Constructed probe mode e a)
    (without : WithoutSigma a h) : h.Productive := by
  intro p live
  obtain ⟨s, hs, ends⟩ := without.ends p live
  obtain ⟨u, ended⟩ := made.productive (fun c drawn => plain.passable drawn) s hs
  have consuming := consuming_of_plain plain made without
  exact ⟨u, (ends_iff_admits consuming probe).mp ((ends probe u []).mpr ended)⟩

end

/-- The minimal automaton of an expression without lookaheads is canonical. -/
theorem exists_canonical (plain : e.Plain) (sound : e.fault? = none) (tag : Nat) :
    ∃ (m : Graph Expr) (i n : Nat), compile tag .minimal e = .ok (m.fill ∅) ∧ m.Canonical i n ∧
      ∀ w, m.Admits i w ↔ e.Matches w [] := by
  have probe : Probe Expr := fun _ _ _ => .ok true
  have made := constructed_ofExpr (Expr.wellFormed_of_fault? sound)
    (plain.truthful probe .minimal) tag
  obtain ⟨i, initial, same⟩ := made.initial
  obtain ⟨h, free, without⟩ := removeEpsilon_spec made.intact initial tag
  obtain ⟨j, start, same'⟩ := without.start initial
  have consuming := consuming_of_plain plain made without
  have productive := productive_of_plain plain made without
  obtain ⟨d, b, ok, det⟩ := determinize_spec without.intact start tag
  have lettered := det.lettered consuming
  have filled := det.filled consuming
  have live (s : Nat) : d.IsLive s ↔ s < b.nodes.keys.size := det.isLive_iff_lt
  have ranked := (det.breadthFirst consuming).ranked lettered det.intact_graph live
  obtain ⟨m, least, quotient⟩ := minimize_spec det.intact_graph det.initial tag
  refine ⟨m, _, _, compile_of_prepare plain sound (prepare_minimal free ok least),
    quotient.canonical lettered filled (det.productive consuming productive) live ranked, ?_⟩
  intro w
  have answers : h.Answers probe w := by
    intro s t ht
    exact Condition.answers_of_consuming (consuming s t ht)
  rw [quotient.admits_iff lettered filled quotient.start,
    ← ends_iff_admits lettered.consuming probe, det.ends_start answers, same', same]

/-- The automaton of an expression accepts the texts that the expression matches. -/
theorem accepts_iff_matches (ok : compile tag mode e = .ok g) :
    g.Accepts Nested.probe text text.length ↔ e.Matches text [] := by
  obtain ⟨g', i, ok', searchable, same⟩ := compile_spec (fault?_of_compile ok) tag mode
  cases ok.symm.trans ok'
  rw [accepts_iff_ends]
  constructor
  · rintro ⟨j, v, initial, ends, len⟩
    cases searchable.initial.symm.trans initial
    have none : v = [] := List.eq_nil_of_length_eq_zero (by omega)
    exact (same text []).mp (none ▸ ends)
  · intro matched
    exact ⟨i, [], searchable.initial, (same text []).mpr matched, rfl⟩

theorem accepts_tag {ν : Type} {g : Graph ν} {probe : Probe ν} {window : List Char} {pos : Nat}
    (tag : Nat) : { g with tag }.Accepts probe window pos ↔ g.Accepts probe window pos := by
  rw [accepts_iff, accepts_iff]
  rfl

/-- Let no lookahead and no empty class occur in two expressions. They match the same texts exactly
if their minimal automata are the same up to their tags. No automaton that reads letters, by at most
one transition of a state for each, and accepts the same texts has fewer states. -/
theorem compile_minimal {e' : Expr} (plain : e.Plain) (plain' : e'.Plain) {tag' : Nat}
    {g' : Automaton} (ok : compile tag .minimal e = .ok g)
    (ok' : compile tag' .minimal e' = .ok g') :
    ((∀ text, e.Matches text [] ↔ e'.Matches text []) ↔ { g with tag := g'.tag } = g') ∧
      ∀ h : Automaton, h.HasHistory → h.Lettered → (∀ text,
        h.Accepts Nested.probe text text.length ↔ g.Accepts Nested.probe text text.length) →
          g.stateCount ≤ h.stateCount := by
  obtain ⟨m, i, n, compiled, canonical, same⟩ :=
    exists_canonical plain (fault?_of_compile ok) tag
  obtain ⟨m', i', n', compiled', canonical', same'⟩ :=
    exists_canonical plain' (fault?_of_compile ok') tag'
  refine ⟨⟨?_, ?_⟩, ?_⟩
  · intro equivalent
    cases ok.symm.trans compiled
    cases ok'.symm.trans compiled'
    have alike : Alike m m' i i' := by
      intro w
      rw [same, same', equivalent]
    exact congrArg (fill ∅) (canonical.eq_of_alike canonical' alike)
  · intro equal text
    rw [← accepts_iff_matches ok, ← accepts_iff_matches ok', ← equal]
    exact (accepts_tag g'.tag).symm
  · intro h history lettered equivalent
    cases ok.symm.trans compiled
    have start : m.IsLive i := (canonical.isLive_iff i).mpr canonical.start
    have accepted (w : List Char) : m.Admits i w ↔ h.Accepts Nested.probe w w.length := by
      rw [same, ← accepts_iff_matches ok, equivalent]
    obtain ⟨w, admits⟩ := canonical.productive i start
    obtain ⟨j, _, initial, -, -⟩ := accepts_iff_ends.mp ((accepted w).mp admits)
    have alike : Alike m h i j := by
      intro w
      rw [accepted, accepts_length_iff lettered.consuming initial]
    apply stateCount_le_of_apart canonical.lettered lettered canonical.intact history.intact
      canonical.productive alike (history.intact.initial_live j initial)
    · intro s r hs hr
      exact canonical.apart s r ((canonical.isLive_iff s).mp hs) ((canonical.isLive_iff r).mp hr)
    · intro s hs
      obtain ⟨w, spells, -⟩ := canonical.ranked s ((canonical.isLive_iff s).mp hs)
      exact ⟨w, spells⟩

/-- The letter `a`, written as a text and as a class. -/
def letterTwice : Expr := .alternatives [.literal ['a'], .ofSet (.single 'a')]

theorem plain_literal (text : List Char) : (Expr.literal text).Plain := by
  refine ⟨rfl, ?_⟩
  intro c mem
  simp [Expr.walk] at mem

theorem plain_letterTwice : letterTwice.Plain := by
  refine ⟨rfl, ?_⟩
  intro c mem
  simp only [letterTwice, Expr.walk, Expr.walkAll, Expr.ofSet, List.mem_cons, List.mem_append,
    List.not_mem_nil, reduceCtorEq, or_false, false_or, Expr.charClass.injEq] at mem
  subst mem
  rfl

theorem matches_letterTwice (text : List Char) :
    (Expr.literal ['a']).Matches text [] ↔ letterTwice.Matches text [] := by
  simp [letterTwice, Expr.ofSet, Expr.Matches, Expr.MatchesAny]

theorem outgoing_letter (s : Nat) : letter.outgoing s =
    if s = 0 then [⟨⟨0, 1, .char 'a'⟩, false⟩] else [] := by
  match s with
  | 0 => rfl
  | 1 => rfl
  | s + 2 =>
    have size : letter.states.size = 2 := rfl
    have none : letter.states[s + 2]? = none := Array.getElem?_eq_none (by omega)
    unfold outgoing
    rw [none]
    rfl

theorem lettered_letter : letter.Lettered := by
  constructor
  · intro s t ht
    rw [outgoing_letter] at ht
    split at ht
    · cases List.mem_singleton.mp ht
      rfl
    · cases ht
  · intro s
    rw [outgoing_letter]
    split
    · exact List.pairwise_singleton ..
    · exact .nil

theorem goes_letter {s r : Nat} {x : Char} : letter.Goes s x r ↔ s = 0 ∧ x = 'a' ∧ r = 1 := by
  unfold Goes Condition.Takes
  rw [outgoing_letter]
  split
  · next start => simp [start, Condition.charSet?, eq_comm]
  · next other => simp [other]

theorem admits_letter (w : List Char) : letter.Admits 0 w ↔ w = ['a'] := by
  have accepting : letter.isAccepting 0 = false ∧ letter.isAccepting 1 = true := ⟨rfl, rfl⟩
  cases w with
  | nil => simp [admits_nil, accepting]
  | cons x w =>
    cases w with
    | nil => simp [admits_cons, admits_nil, goes_letter, accepting]
    | cons y w => simp [admits_cons, goes_letter]

theorem compile_minimal_letter : (Expr.literal ['a']).Plain ∧ letterTwice.Plain ∧ ∃ g g',
    compile 0 .minimal (.literal ['a']) = .ok g ∧ compile 1 .minimal letterTwice = .ok g' ∧
      { g with tag := g'.tag } = g' ∧ g.stateCount ≤ letter.stateCount := by
  obtain ⟨g, -, ok, -, -⟩ := compile_spec (e := .literal ['a']) rfl 0 .minimal
  obtain ⟨g', -, ok', -, -⟩ := compile_spec (e := letterTwice) rfl 1 .minimal
  obtain ⟨canonical, least⟩ := compile_minimal (plain_literal ['a']) plain_letterTwice ok ok'
  refine ⟨plain_literal _, plain_letterTwice, g, g', ok, ok', canonical.mp matches_letterTwice, ?_⟩
  apply least letter hasHistory_letter lettered_letter
  intro text
  rw [accepts_iff_matches ok, accepts_length_iff lettered_letter.consuming rfl, admits_letter]
  simp [Expr.Matches]

end Graph

end PatternAutomata
