import PatternAutomata.Automaton.EpsilonFree
import PatternAutomata.Proofs.Built
import PatternAutomata.Proofs.Numbering
import PatternAutomata.Proofs.SigmaClosure

/-!
# Sigma transitions can be removed

Every state of the automaton without sigma transitions stands for an anchor, and a move of it is a
leap between anchors. `removeEpsilon_spec` states that the states accept like the anchors that they
stand for.
-/
namespace PatternAutomata.Graph

variable {ν : Type}

theorem rename?_eq_some_iff {kept : Numbering Nat} {e f : Edge ν} :
    rename? kept e = some f ↔ kept.place? e.source = some f.source ∧
      kept.place? e.target = some f.target ∧ f.condition = e.condition := by
  obtain ⟨source, target, condition⟩ := f
  unfold rename?
  cases hs : kept.place? e.source <;> cases ht : kept.place? e.target <;> simp [eq_comm]

section
variable {g : Graph ν} {i : Nat}

theorem nodup_liveStates (g : Graph ν) : g.liveStates.Nodup := List.nodup_range.filter _

theorem nodup_anchors : (g.anchors i).Nodup := (nodup_liveStates g).filter _

theorem mem_anchors (hg : g.Intact) {s : Nat} : s ∈ g.anchors i ↔ g.IsLive s ∧
    (s = i ∨ ∃ r, ∃ t ∈ g.outgoing r, t.target = s ∧ t.condition.isSigma = false) := by
  simp only [anchors, List.mem_filter, mem_liveStates, Bool.or_eq_true, beq_iff_eq,
    List.any_eq_true, Bool.not_eq_true', hg.mem_incoming, hg.mem_outgoing]
  refine and_congr_right fun _ => or_congr_right ?_
  constructor
  · rintro ⟨t, ⟨member, alive, target⟩, free⟩
    exact ⟨t.source, t, ⟨member, alive, rfl⟩, target, free⟩
  · rintro ⟨_, t, ⟨member, alive, _⟩, target, free⟩
    exact ⟨t, ⟨member, alive, target⟩, free⟩

/-- The edges of an automaton after the removal of its sigma transitions. -/
def anchorEdges (g : Graph ν) (i : Nat) : List (Edge ν) :=
  (g.anchors i).flatMap fun s => (g.closed s).leaving.filterMap fun t =>
    rename? (.ofList (g.anchors i)) ⟨s, t.target, t.condition⟩

theorem mem_anchorEdges {e : Edge ν} : e ∈ g.anchorEdges i ↔
    ∃ s, (g.anchors i)[e.source]? = some s ∧ ∃ t ∈ (g.closed s).leaving,
      (g.anchors i)[e.target]? = some t.target ∧ t.condition = e.condition := by
  simp only [anchorEdges, List.mem_flatMap, List.mem_filterMap, rename?_eq_some_iff,
    Numbering.place?_ofList nodup_anchors]
  constructor
  · rintro ⟨s, _, t, ht, source, target, condition⟩
    exact ⟨s, source, t, ht, target, condition.symm⟩
  · rintro ⟨s, source, t, ht, target, condition⟩
    exact ⟨s, List.mem_of_getElem? source, t, ht, source, target, condition.symm⟩

theorem lt_anchors {s p : Nat} (h : (Numbering.ofList (g.anchors i)).place? s = some p) :
    p < (g.anchors i).length :=
  (List.getElem?_eq_some_iff.mp ((Numbering.place?_ofList nodup_anchors).mp h)).1

theorem joins_anchorEdges : Joins (g.anchors i).length (g.anchorEdges i) := by
  intro e he
  obtain ⟨s, source, t, _, target, _⟩ := mem_anchorEdges.mp he
  exact ⟨(List.getElem?_eq_some_iff.mp source).1, (List.getElem?_eq_some_iff.mp target).1⟩

/-- The automaton without sigma transitions, in closed form. -/
theorem removeEpsilon_eq [DecidableEq ν] [Hashable ν] (tag : Nat) (initial : g.initial = some i) :
    g.removeEpsilon tag = .ok (build tag ((g.anchors i).map fun s => (g.closed s).accepting)
      (distinct (g.anchorEdges i)) ((Numbering.ofList (g.anchors i)).place? i)) := by
  simp only [removeEpsilon, initial, List.map_map, List.flatMap_map]
  rfl

end

/-- The states of the second automaton stand for anchors of the first one, by their places. -/
structure Anchored (g h : Graph ν) (i : Nat) : Prop where
  accepting : ∀ p s, (g.anchors i)[p]? = some s → h.isAccepting p = (g.closed s).accepting
  outgoing : ∀ p s, (g.anchors i)[p]? = some s → ∀ t, t ∈ h.outgoing p ↔
    t.deleted = false ∧ t.source = p ∧ ∃ r ∈ (g.closed s).leaving,
      (g.anchors i)[t.target]? = some r.target ∧ r.condition = t.condition

namespace Anchored

variable {g h : Graph ν} {i : Nat} {probe : Probe ν}

/-- A move between states is a leap between the anchors they stand for. -/
theorem moves_iff (k : Anchored g h i) (hg : g.Intact) {p s : Nat} (hp : (g.anchors i)[p]? = some s)
    {u v : List Char} {s' : Nat} :
    (∃ q, (g.anchors i)[q]? = some s' ∧ h.Moves probe (p, u) (q, v)) ↔
      g.Leaps probe (s, u) (s', v) := by
  constructor
  · rintro ⟨q, hq, t, ht, rfl, leads⟩
    obtain ⟨_, _, r, hr, target, condition⟩ := (k.outgoing p s hp t).mp ht
    exact ⟨r, hr, Option.some.inj (target.symm.trans hq), condition ▸ leads⟩
  · rintro ⟨t, ht, rfl, leads⟩
    obtain ⟨m, hm, out, free⟩ := mem_leaving.mp ht
    have anchor : t.target ∈ g.anchors i :=
      (mem_anchors hg).mpr ⟨hg.isLive_target out, .inr ⟨m, t, out, rfl, free⟩⟩
    obtain ⟨q, hq⟩ := List.mem_iff_getElem?.mp anchor
    exact ⟨q, hq, ⟨⟨p, q, t.condition⟩, false⟩,
      (k.outgoing p s hp _).mpr ⟨rfl, rfl, t, ht, hq, rfl⟩, rfl, leads⟩

/-- A state accepts what its anchor accepts. -/
theorem ends_iff (k : Anchored g h i) (hg : g.Intact) {p s : Nat} (hp : (g.anchors i)[p]? = some s)
    {u v : List Char} : h.Ends probe p u v ↔ g.Ends probe s u v := by
  have live : g.IsLive s := ((mem_anchors hg).mp (List.mem_of_getElem? hp)).1
  constructor
  · rintro ⟨r, run, accepting⟩
    have leaps {b : Config} (run : h.Runs probe (p, u) b) : ∃ s', (g.anchors i)[b.1]? = some s' ∧
        Relation.ReflTransGen (g.Leaps probe) (s, u) (s', b.2) := by
      induction run with
      | refl => exact ⟨s, hp, .refl⟩
      | tail _ move ih =>
        obtain ⟨s', hb, leaps⟩ := ih
        obtain ⟨t, ht, target, _⟩ := id move
        obtain ⟨_, _, r, _, hr, _⟩ := (k.outgoing _ s' hb t).mp ht
        rw [target] at hr
        exact ⟨r.target, hr, leaps.tail ((k.moves_iff hg hb).mp ⟨_, hr, move⟩)⟩
    obtain ⟨s', hr, leaps⟩ := leaps run
    rw [k.accepting r s' hr] at accepting
    obtain ⟨m, member, accepting⟩ := closed_accepting.mp accepting
    have sigma := (mem_closure hg (isLive_of_leaps hg live leaps)).mp member
    exact ⟨m, (runs_of_leaps leaps).trans (sigma.runs v), accepting⟩
  · rintro ⟨r, run, accepting⟩
    obtain ⟨s', leaps, _, member⟩ := exists_leaps hg live run
    have runs {b : Config} (leaps : Relation.ReflTransGen (g.Leaps probe) (s, u) b) :
        ∃ q, (g.anchors i)[q]? = some b.1 ∧ h.Runs probe (p, u) (q, b.2) := by
      induction leaps with
      | refl => exact ⟨p, hp, .refl⟩
      | tail _ leap ih =>
        obtain ⟨q, hq, run⟩ := ih
        obtain ⟨q', hq', move⟩ := (k.moves_iff hg hq).mpr leap
        exact ⟨q', hq', run.tail move⟩
    obtain ⟨q, hq, run⟩ := runs leaps
    refine ⟨q, run, ?_⟩
    rw [k.accepting q s' hq]
    exact closed_accepting.mpr ⟨r, member, accepting⟩

end Anchored

/-- What the removal of sigma transitions comes to: states that accept like states of the given
automaton, the initial one like the initial one, and conditions that are no sigma transitions. -/
structure WithoutSigma (g h : Graph ν) : Prop where
  intact : h.Intact
  ends : ∀ p, h.IsLive p → ∃ s, g.IsLive s ∧
    ∀ probe u v, h.Ends probe p u v ↔ g.Ends probe s u v
  initial : ∃ i j, g.initial = some i ∧ h.initial = some j ∧
    ∀ probe u v, h.Ends probe j u v ↔ g.Ends probe i u v
  conditions : ∀ p, ∀ t ∈ h.outgoing p, t.condition.isSigma = false ∧
    ∃ s, ∃ r ∈ g.outgoing s, r.condition = t.condition

theorem WithoutSigma.start {g h : Graph ν} (without : WithoutSigma g h) {i : Nat}
    (initial : g.initial = some i) : ∃ j, h.initial = some j ∧
      ∀ probe u v, h.Ends probe j u v ↔ g.Ends probe i u v := by
  obtain ⟨i', j, initial', start, same⟩ := without.initial
  cases initial.symm.trans initial'
  exact ⟨j, start, same⟩

/-- Without sigma transitions no other nested automata are run. -/
theorem WithoutSigma.answers {g h : Graph ν} (without : WithoutSigma g h) {probe : Probe ν}
    {window : List Char} (answers : g.Answers probe window) : h.Answers probe window := by
  intro p t ht nested mode negated hc
  obtain ⟨-, s, r, hr, condition⟩ := without.conditions p t ht
  exact answers s r hr nested mode negated (condition.trans hc)

theorem removeEpsilon_spec [DecidableEq ν] [Hashable ν] {g : Graph ν} (hg : g.Intact) {i : Nat}
    (initial : g.initial = some i) (tag : Nat) :
    ∃ h, g.removeEpsilon tag = .ok h ∧ WithoutSigma g h := by
  refine ⟨_, removeEpsilon_eq tag initial, ?_⟩
  have anchor : i ∈ g.anchors i := (mem_anchors hg).mpr ⟨hg.initial_live i initial, .inl rfl⟩
  obtain ⟨j, hj⟩ := List.mem_iff_getElem?.mp anchor
  have hj' : (Numbering.ofList (g.anchors i)).place? i = some j :=
    (Numbering.place?_ofList nodup_anchors).mpr hj
  have joins : Joins ((g.anchors i).map fun s => (g.closed s).accepting).length
      (distinct (g.anchorEdges i)) := fun e he => by
    rw [List.length_map]
    exact joins_anchorEdges e (mem_distinct.mp he)
  have out {p : Nat} {t : Transition ν} : t ∈ (build tag ((g.anchors i).map fun s =>
      (g.closed s).accepting) (distinct (g.anchorEdges i))
        ((Numbering.ofList (g.anchors i)).place? i)).outgoing p ↔
          t.deleted = false ∧ t.source = p ∧ t.toEdge ∈ g.anchorEdges i := by
    obtain ⟨e, deleted⟩ := t
    rw [outgoing_build joins]
    simp only [List.mem_map, List.mem_filter, mem_distinct, beq_iff_eq, Transition.mk.injEq]
    constructor
    · rintro ⟨e, ⟨he, source⟩, rfl, rfl⟩
      exact ⟨rfl, source, he⟩
    · rintro ⟨rfl, source, he⟩
      exact ⟨e, ⟨he, source⟩, rfl, rfl⟩
  have anchored : Anchored g (build tag ((g.anchors i).map fun s => (g.closed s).accepting)
      (distinct (g.anchorEdges i)) ((Numbering.ofList (g.anchors i)).place? i)) i := by
    refine ⟨fun p s hp => ?_, fun p s hp t => ?_⟩
    · rw [isAccepting_build, List.getElem?_map, hp]
      rfl
    · rw [out, mem_anchorEdges]
      refine and_congr_right fun _ => and_congr_right fun source => ?_
      rw [source, hp]
      simp
  refine ⟨?_, fun p hp => ?_, ⟨i, j, initial, hj', fun _ _ _ => anchored.ends_iff hg hj⟩, ?_⟩
  · refine intact_build joins fun s hs => ?_
    rw [List.length_map]
    exact lt_anchors hs
  · rw [isLive_build, List.length_map] at hp
    have hs := List.getElem?_eq_getElem hp
    exact ⟨_, ((mem_anchors hg).mp (List.mem_of_getElem? hs)).1,
      fun _ _ _ => anchored.ends_iff hg hs⟩
  · intro p t ht
    obtain ⟨_, _, he⟩ := out.mp ht
    obtain ⟨s, _, r, hr, _, condition⟩ := mem_anchorEdges.mp he
    obtain ⟨m, _, hr, free⟩ := mem_leaving.mp hr
    exact ⟨condition ▸ free, m, r, hr, condition⟩

end PatternAutomata.Graph
