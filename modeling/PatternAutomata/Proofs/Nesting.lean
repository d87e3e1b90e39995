import PatternAutomata.Proofs.Strategies

/-!
# Automata that are intact at any depth

What can be met while an automaton is searched are the automata nested in it, those nested in them,
and so on. Whether an automaton is made by changes (`HasHistory.intactThroughout`) or from an
expression (`intactThroughout_of_compile`), all of them are intact.
-/
namespace PatternAutomata.Graph

/-- The automaton is intact, and so are its nested automata, at any depth. -/
inductive IntactThroughout : Automaton → Prop where
  | intro {g : Automaton} (intact : g.Intact)
      (nested : ∀ n ∈ g.nested, IntactThroughout n.automaton) : IntactThroughout g

variable {g : Automaton} {n : Nested} {mode : Mode} {e : Expr} {tag : Nat}
  {table table' : Compilations}

namespace IntactThroughout

theorem intact (h : g.IntactThroughout) : g.Intact := by
  cases h with
  | intro intact _ => exact intact

theorem nested (h : g.IntactThroughout) (hn : n ∈ g.nested) :
    n.automaton.IntactThroughout := by
  cases h with
  | intro _ nested => exact nested n hn

theorem empty (tag : Nat) : (Graph.empty tag : Automaton).IntactThroughout :=
  .intro (.empty tag) fun _ hn => by cases hn

end IntactThroughout

/-- Changes lead to such automata, if the nested automata that they bring in are such automata. -/
theorem HasHistory.intactThroughout (h : g.HasHistory)
    (nested : ∀ n ∈ g.nested, n.automaton.IntactThroughout) : g.IntactThroughout :=
  .intro h.intact nested

theorem mem_nested_iff {ν : Type} {g : Graph ν} {n : ν} : n ∈ g.nested ↔
    ∃ t i, (t, i) ∈ g.liveTransitions ∧ ∃ mode negated, t.condition = .check n mode negated := by
  constructor
  · intro hn
    obtain ⟨⟨t, i⟩, ht, some⟩ := List.mem_filterMap.mp hn
    split at some
    · next nested mode negated hc =>
      cases some
      exact ⟨t, i, ht, mode, negated, hc⟩
    · cases some
  · rintro ⟨t, i, ht, mode, negated, hc⟩
    refine List.mem_filterMap.mpr ⟨(t, i), ht, ?_⟩
    simp only [hc]

/-- The nested automata of new ones are the new ones. -/
theorem mem_nested_mapNested {ν μ : Type} {g : Graph ν} {f : Nat → ν → μ} {n : μ}
    (hn : n ∈ (g.mapNested f).nested) : ∃ i, ∃ old ∈ g.nested, n = f i old := by
  obtain ⟨t, i, ht, mode, negated, hc⟩ := mem_nested_iff.mp hn
  obtain ⟨r, hr, rfl⟩ := mem_liveTransitions_mapNested.mp ht
  obtain ⟨old, condition, rfl⟩ := Condition.map_eq_check_iff.mp hc
  exact ⟨i, old, mem_nested_iff.mpr ⟨r, i, hr, mode, negated, condition⟩, rfl⟩

/-- All nested automata of a table are intact at any depth. -/
def Compilations.IntactThroughout (table : Compilations) : Prop :=
  ∀ body, (table.getD body (.of (Graph.empty 0))).automaton.IntactThroughout

theorem intactThroughout_of_compileWith (sound : e.fault? = none)
    (held : table.IntactThroughout) (ok : compileWith table tag mode e = .ok g) :
    g.IntactThroughout := by
  have made := constructed sound tag mode
  obtain ⟨i, initial, -⟩ := made.initial
  obtain ⟨h, prepared, intact⟩ := exists_prepare made.intact initial tag mode
  unfold compileWith at ok
  rw [prepared] at ok
  cases ok
  refine .intro intact.mapNested fun n hn => ?_
  obtain ⟨-, body, -, rfl⟩ := mem_nested_mapNested hn
  exact held body

theorem intactThroughout_of_compileBodies {bodies : List Expr}
    (sound : ∀ b ∈ bodies, b.fault? = none) (held : table.IntactThroughout)
    (ok : compileBodies mode tag table bodies = .ok table') : table'.IntactThroughout := by
  induction bodies generalizing table tag with
  | nil =>
    cases ok
    exact held
  | cons b rest ih =>
    obtain ⟨first, others⟩ := List.forall_mem_cons.mp sound
    obtain ⟨g, compiled, ok⟩ := bind_eq_ok.mp ok
    have made := intactThroughout_of_compileWith first held compiled
    refine ih others (fun body => ?_) ok
    rw [Std.HashMap.getD_insert]
    split
    · exact made
    · exact held body

theorem fault?_of_mem_bodies (sound : e.fault? = none) {b : Expr} (hb : b ∈ e.bodies) :
    b.fault? = none := by
  obtain ⟨negated, mem⟩ := Expr.mem_bodiesIn.mp (mem_distinct.mp hb)
  exact Expr.fault?_body sound mem

/-- An expression that is compiled is well-formed, and its bodies have been compiled before. -/
theorem of_compile_ok (ok : compile tag mode e = .ok g) : e.fault? = none ∧
    ∃ table, compileBodies mode (tag + 1) ∅ e.bodies = .ok table ∧
      compileWith table tag mode e = .ok g := by
  have sound := fault?_of_compile ok
  refine ⟨sound, ?_⟩
  rw [compile, sound] at ok
  exact bind_eq_ok.mp ok

/-- Compiled automata are intact at any depth. -/
theorem intactThroughout_of_compile (ok : compile tag mode e = .ok g) : g.IntactThroughout := by
  obtain ⟨sound, table, compiled, ok⟩ := of_compile_ok ok
  have none : Compilations.IntactThroughout ∅ := by
    intro body
    rw [Std.HashMap.getD_empty]
    exact .empty 0
  have held := intactThroughout_of_compileBodies (fun b => fault?_of_mem_bodies sound) none compiled
  exact intactThroughout_of_compileWith sound held ok

end PatternAutomata.Graph
