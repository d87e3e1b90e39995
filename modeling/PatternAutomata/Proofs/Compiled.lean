import PatternAutomata.Proofs.Fragments
import PatternAutomata.Proofs.Prepared

/-!
# What compiled expressions find

Bodies of lookaheads are compiled before the expressions around them (`founded_bodies`). The table
of their automata therefore tells the truth about every lookahead that is met, and so an automaton
that is compiled accepts what its expression matches (`compile_spec`).
-/
namespace PatternAutomata

namespace Expr

theorem walk_sub_of_cons {e x : Expr} {parts : List Expr} (cons : e.walk = e :: parts)
    (inner : x ∈ parts → x.walk ⊆ parts) (mem : x ∈ e.walk) : x.walk ⊆ e.walk := by
  rw [cons, List.mem_cons] at mem
  rcases mem with rfl | mem
  · exact fun _ => id
  · rw [cons]
    exact List.Subset.trans (inner mem) (List.subset_cons_self _ _)

mutual

/-- The parts of a part are parts. -/
theorem walk_sub : (e x : Expr) → x ∈ e.walk → x.walk ⊆ e.walk
  | charClass _, _, mem | literal _, _, mem => walk_sub_of_cons (by rw [walk]) (by simp) mem
  | sequence items, x, mem | alternatives items, x, mem =>
    walk_sub_of_cons (by rw [walk]) (walkAll_sub items x) mem
  | repetition body _ _, x, mem | lookahead body _, x, mem =>
    walk_sub_of_cons (by rw [walk]) (walk_sub body x) mem

theorem walkAll_sub : (es : List Expr) → (x : Expr) → x ∈ walkAll es → x.walk ⊆ walkAll es
  | [], x, mem => by simp [walkAll] at mem
  | e :: es, x, mem => by
    rw [walkAll, List.mem_append] at mem
    rw [walkAll]
    rcases mem with mem | mem
    · exact List.Subset.trans (walk_sub e x mem) (List.subset_append_left _ _)
    · exact List.Subset.trans (walkAll_sub es x mem) (List.subset_append_right _ _)

end

theorem wellFormed_of_fault? {e : Expr} (h : e.fault? = none) : WellFormed e.walk := by
  unfold fault? at h
  rw [List.findSome?_eq_none_iff] at h
  exact h

/-- The body of a lookahead in a well-formed expression is well-formed. -/
theorem fault?_body {e b : Expr} {negated : Bool} (sound : e.fault? = none)
    (mem : lookahead b negated ∈ e.walk) : b.fault? = none := by
  unfold fault?
  rw [List.findSome?_eq_none_iff]
  intro c hc
  exact wellFormed_of_fault? sound c (walk_sub e _ mem (by simp [walk, hc]))

/-- The bodies of the lookaheads in an expression, the innermost ones first. -/
def bodiesIn (es : List Expr) : List Expr := (es.filterMap body?).reverse

theorem mem_bodiesIn {b : Expr} {es : List Expr} :
    b ∈ bodiesIn es ↔ ∃ negated, lookahead b negated ∈ es := by
  unfold bodiesIn
  simp only [List.mem_reverse, List.mem_filterMap]
  constructor
  · rintro ⟨e, he, hb⟩
    cases e <;> cases hb
    exact ⟨_, he⟩
  · rintro ⟨negated, he⟩
    exact ⟨_, he, rfl⟩

/-- Every body in a list comes after the bodies inside it, if some bodies are known before. -/
def Founded (known : List Expr) : List Expr → Prop
  | [] => True
  | b :: rest => bodiesIn b.walk ⊆ known ∧ Founded (b :: known) rest

theorem Founded.mono {known known' bs : List Expr} (sub : known ⊆ known')
    (h : Founded known bs) : Founded known' bs := by
  induction bs generalizing known known' with
  | nil => trivial
  | cons b rest ih =>
    exact ⟨List.Subset.trans h.1 sub, ih (List.cons_subset_cons b sub) h.2⟩

theorem founded_append {known bs cs : List Expr} :
    Founded known (bs ++ cs) ↔ Founded known bs ∧ Founded (bs ++ known) cs := by
  induction bs generalizing known with
  | nil => simp [Founded]
  | cons b rest ih =>
    have same : rest ++ b :: known ⊆ b :: rest ++ known ∧ b :: rest ++ known ⊆ rest ++ b :: known :=
      ⟨by grind, by grind⟩
    simp only [List.cons_append, Founded, ih, and_assoc]
    constructor
    · rintro ⟨inner, first, second⟩
      exact ⟨inner, first, second.mono same.1⟩
    · rintro ⟨inner, first, second⟩
      exact ⟨inner, first, second.mono same.2⟩

/-- Repeated bodies do no harm. -/
theorem Founded.distinct {bs : List Expr} (h : Founded [] bs) :
    Founded [] (PatternAutomata.distinct bs) := by
  induction bs using List.reverseRecOn with
  | nil => trivial
  | append_singleton bs b ih =>
    obtain ⟨first, inner, -⟩ := founded_append.mp h
    rw [distinct_append]
    split
    · exact ih first
    · refine founded_append.mpr ⟨ih first, ?_, trivial⟩
      intro c hc
      have known := inner hc
      simpa [mem_distinct] using known

mutual

theorem founded_walk : (e : Expr) → Founded [] (bodiesIn e.walk)
  | charClass _ | literal _ => trivial
  | sequence items => founded_walkAll items
  | alternatives items => founded_walkAll items
  | repetition body _ _ => founded_walk body
  | lookahead body negated => by
    have last : bodiesIn (lookahead body negated).walk = bodiesIn body.walk ++ [body] := by
      simp [bodiesIn, walk, body?]
    rw [last]
    exact founded_append.mpr ⟨founded_walk body, List.subset_append_left _ _, trivial⟩

theorem founded_walkAll : (es : List Expr) → Founded [] (bodiesIn (walkAll es))
  | [] => trivial
  | e :: es => by
    have split : bodiesIn (walkAll (e :: es)) = bodiesIn (walkAll es) ++ bodiesIn e.walk := by
      simp [bodiesIn, walkAll]
    rw [split]
    refine founded_append.mpr ⟨founded_walkAll es, ?_⟩
    exact (founded_walk e).mono (List.nil_subset _)

end

theorem founded_bodies (e : Expr) : Founded [] e.bodies := (founded_walk e).distinct

end Expr

namespace Graph

/-- How the checks of an automaton are run, if a table holds the nested automata. -/
def probeIn (table : Compilations) : Probe Expr := fun body =>
  Nested.probe (table.getD body (.of (Graph.empty 0)))

/-- The nested automaton of a body finds a match exactly if the body matches. -/
def Reliable (table : Compilations) (mode : Mode) (body : Expr) : Prop :=
  ∀ u, ∃ found, probeIn table body mode u = .ok found ∧ (found = true ↔ ∃ v, body.Matches u v)

variable {table : Compilations} {mode : Mode} {e : Expr}

theorem truthful_of_reliable {es : List Expr} (h : ∀ b ∈ Expr.bodiesIn es, Reliable table mode b) :
    Truthful (probeIn table) mode es := by
  intro body negated mem
  exact h body (Expr.mem_bodiesIn.mpr ⟨negated, mem⟩)

/-- An expression becomes an automaton that accepts what it matches, if the table is reliable. -/
theorem compileWith_spec (sound : WellFormed e.walk)
    (reliable : ∀ b ∈ Expr.bodiesIn e.walk, Reliable table mode b) (tag : Nat) :
    ∃ g i, compileWith table tag mode e = .ok g ∧ g.Searchable Nested.probe mode i ∧
      ∀ u v, g.Ends Nested.probe i u v ↔ e.Matches u v := by
  have truthful := truthful_of_reliable reliable
  have made := constructed_ofExpr sound truthful tag
  obtain ⟨i, initial, same⟩ := made.initial
  have answers (window : List Char) :
      (Graph.ofExpr tag mode e).Answers (probeIn table) window := by
    intro s t ht nested m negated hc u _
    have drawn := made.drawn s t ht
    rw [hc] at drawn
    obtain ⟨rfl, mem⟩ := drawn
    obtain ⟨found, ok, _⟩ := truthful nested negated mem u
    exact ⟨found, ok⟩
  obtain ⟨h, j, ok, searchable, same'⟩ := prepare_spec made.intact initial answers tag mode
  refine ⟨h.fill table, j, ?_, searchable.replace (f := fun b => table.getD b (.of (empty 0))), ?_⟩
  · unfold compileWith
    rw [ok]
    rfl
  · intro u v
    rw [← same, ← same']
    exact ends_replace

/-- A nested automaton that accepts what a body matches is reliable. -/
theorem reliable_of_searchable {g : Automaton} {i : Nat} {b : Expr}
    (held : table.getD b (.of (Graph.empty 0)) = .of g)
    (searchable : g.Searchable Nested.probe mode i)
    (same : ∀ u v, g.Ends Nested.probe i u v ↔ b.Matches u v) : Reliable table mode b := by
  intro u
  have ready : (g.replace Nested.trial).Searchable Nested.Trial.run mode i :=
    searchable.replace (f := Nested.trial)
  obtain ⟨n, ok, extreme⟩ := ready.search true u
  refine ⟨n.isSome, ?_, ?_⟩
  · unfold probeIn
    rw [held, Nested.probe_eq, Nested.automaton, Nested.ready_eq, ok]
    rfl
  · have accepts (n : Nat) : (g.replace Nested.trial).Accepts Nested.Trial.run u n ↔
        ∃ v, b.Matches u v ∧ n + v.length = u.length :=
      accepts_replace.trans (accepts_iff_of_ends searchable.initial (same u))
    cases n with
    | none =>
      simp only [Option.isSome_none, Bool.false_eq_true, false_iff]
      rintro ⟨v, hv⟩
      have shorter := (Expr.Matches.suffix b u v hv).length_le
      exact extreme (u.length - v.length) ((accepts _).mpr ⟨v, hv, by omega⟩)
    | some n =>
      obtain ⟨v, hv, -⟩ := (accepts n).mp extreme.1
      simp only [Option.isSome_some, true_iff]
      exact ⟨v, hv⟩

theorem Reliable.insert {b c : Expr} {n : Nested} (h : Reliable table mode b) (ne : c ≠ b) :
    Reliable (table.insert c n) mode b := by
  have kept : (table.insert c n).getD b (.of (Graph.empty 0)) =
      table.getD b (.of (Graph.empty 0)) := by
    rw [Std.HashMap.getD_insert]
    simp [ne]
  unfold Reliable probeIn at h ⊢
  rw [kept]
  exact h

/-- Bodies that come after those inside them can all be compiled. -/
theorem compileBodies_spec {bodies known : List Expr} (founded : Expr.Founded known bodies)
    (nodup : bodies.Nodup) (new : ∀ b ∈ bodies, b ∉ known) (sound : ∀ b ∈ bodies, WellFormed b.walk)
    (reliable : ∀ b ∈ known, Reliable table mode b) (tag : Nat) :
    ∃ table', compileBodies mode tag table bodies = .ok table' ∧
      (∀ b ∈ known, Reliable table' mode b) ∧ ∀ b ∈ bodies, Reliable table' mode b := by
  induction bodies generalizing known table tag with
  | nil => exact ⟨table, rfl, reliable, by simp⟩
  | cons b rest ih =>
    obtain ⟨inner, founded⟩ := founded
    obtain ⟨fresh, nodup⟩ := List.nodup_cons.mp nodup
    obtain ⟨g, i, ok, searchable, same⟩ := compileWith_spec (sound b (by simp))
      (fun c hc => reliable c (inner hc)) tag
    have held : Reliable (table.insert b (.of g)) mode b :=
      reliable_of_searchable (by simp) searchable same
    have before : ∀ c ∈ b :: known, Reliable (table.insert b (.of g)) mode c := by
      intro c hc
      rcases List.mem_cons.mp hc with rfl | hc
      · exact held
      · have ne : b ≠ c := by
          rintro rfl
          exact new b (by simp) hc
        exact (reliable c hc).insert ne
    obtain ⟨table', ok', older, newer⟩ := ih founded nodup (by grind) (by grind) before (tag + 1)
    refine ⟨table', ?_, fun c hc => older c (List.mem_cons_of_mem b hc), ?_⟩
    · unfold compileBodies
      rw [ok]
      exact ok'
    · intro c hc
      rcases List.mem_cons.mp hc with rfl | hc
      · exact older c (by simp)
      · exact newer c hc

/-- A well-formed expression can be compiled, and its automaton accepts what it matches. -/
theorem compile_spec (sound : e.fault? = none) (tag : Nat) (mode : Mode) :
    ∃ g i, compile tag mode e = .ok g ∧ g.Searchable Nested.probe mode i ∧
      ∀ u v, g.Ends Nested.probe i u v ↔ e.Matches u v := by
  have wellFormed := Expr.wellFormed_of_fault? sound
  have bodies : ∀ b ∈ e.bodies, WellFormed b.walk := by
    intro b hb
    obtain ⟨negated, mem⟩ := Expr.mem_bodiesIn.mp (mem_distinct.mp hb)
    exact Expr.wellFormed_of_fault? (Expr.fault?_body sound mem)
  obtain ⟨table, ok, -, reliable⟩ := compileBodies_spec (Expr.founded_bodies e)
    (nodup_distinct _) (by simp) bodies (by simp) (tag + 1)
  obtain ⟨g, i, ok', searchable, same⟩ := compileWith_spec wellFormed
    (fun b hb => reliable b (mem_distinct.mpr hb)) tag
  refine ⟨g, i, ?_, searchable, same⟩
  unfold compile
  simp only [sound]
  rw [ok]
  exact ok'

theorem fault?_of_compile {tag : Nat} {g : Automaton} (h : compile tag mode e = .ok g) :
    e.fault? = none := by
  unfold compile at h
  cases hf : e.fault? with
  | none => rfl
  | some fault =>
    rw [hf] at h
    cases h

end Graph

end PatternAutomata
