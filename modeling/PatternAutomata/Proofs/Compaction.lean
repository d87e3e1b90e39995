import PatternAutomata.Automaton.Compaction
import PatternAutomata.Proofs.Additions
import PatternAutomata.Proofs.Copies

/-!
# Compaction

A compacted automaton has the states of the given one that are used, in their order and numbered
without gaps, and its live transitions, each where it first occurs (`compacted_compact`). It is a
copy in which searches have the same outcome (`find?_compact_nfa`, `find?_compact_ok`), and it is
its own compaction (`compact_compact`). Made change by change, with a look for an equal transition
before each one is added, it comes out the same (`perform_compaction`).
-/
namespace PatternAutomata

/-- An edge between the places of the ends of another one. -/
def Edge.Renumbered {ν : Type} (kept : List Nat) (e f : Edge ν) : Prop :=
  kept[f.source]? = some e.source ∧ kept[f.target]? = some e.target ∧ f.condition = e.condition

namespace Graph

section
variable {ν : Type}

/-- A state is the initial one, or a live transition enters or leaves it. -/
def Touched (g : Graph ν) (s : Nat) : Prop :=
  g.initial = some s ∨ ∃ e ∈ g.liveEdges, e.source = s ∨ e.target = s

/-- The states that a compaction keeps. -/
def usedStates (g : Graph ν) : List Nat := g.liveStates.filter g.isUsed

/-- What an automaton and its compaction have to do with each other, if the compaction has the kept
states. -/
structure Compacted (g h : Graph ν) (kept : List Nat) : Prop where
  rising : kept.Pairwise (· < ·)
  mem_kept : ∀ s, s ∈ kept ↔ g.IsLive s ∧ g.Touched s
  states : h.states.size = kept.length
  live : ∀ p, p < kept.length → h.IsLive p
  accepting : ∀ p s, kept[p]? = some s → h.isAccepting p = g.isAccepting s
  initial : Option.Rel (fun s p => kept[p]? = some s) g.initial h.initial
  transitions : h.transitions.toList = h.liveEdges.map fun e => ⟨e, false⟩
  edges : ∃ es, List.Forall₂ (Edge.Renumbered kept) g.liveEdges es ∧ Thins es h.liveEdges
  nodup : h.liveEdges.Nodup

variable {g : Graph ν} {tag s : Nat}

namespace Intact

theorem isLive_ends (hg : g.Intact) {e : Edge ν} (he : e ∈ g.liveEdges) :
    g.IsLive e.source ∧ g.IsLive e.target := by
  obtain ⟨t, i, ht, rfl⟩ := mem_liveEdges.mp he
  obtain ⟨found, alive⟩ := mem_liveTransitions_iff.mp ht
  exact ⟨hg.source_live i t found alive, hg.target_live i t found alive⟩

/-- Live numbers of transitions are about live edges. -/
theorem exists_liveNumber {p : Edge ν → Bool} :
    g.liveNumbers (fun t => p t.toEdge) ≠ [] ↔ ∃ e ∈ g.liveEdges, p e = true := by
  constructor
  · intro some
    obtain ⟨i, hi⟩ := List.exists_mem_of_ne_nil _ some
    obtain ⟨t, found, alive, holds⟩ := mem_liveNumbers.mp hi
    exact ⟨_, mem_liveEdges.mpr ⟨t, i, mem_liveTransitions_iff.mpr ⟨found, alive⟩, rfl⟩, holds⟩
  · rintro ⟨e, he, holds⟩
    obtain ⟨t, i, ht, rfl⟩ := mem_liveEdges.mp he
    obtain ⟨found, alive⟩ := mem_liveTransitions_iff.mp ht
    exact List.ne_nil_of_mem (mem_liveNumbers.mpr ⟨t, found, alive, holds⟩)

theorem isUsed_iff (hg : g.Intact) (live : g.IsLive s) : g.isUsed s = true ↔ g.Touched s := by
  obtain ⟨state, hs, -⟩ := live
  have leaves : state.outgoing.isEmpty = false ↔ ∃ e ∈ g.liveEdges, (e.source == s) = true := by
    rw [← exists_liveNumber, ← hg.outgoing_eq s state hs]
    simp
  have enters : state.incoming.isEmpty = false ↔ ∃ e ∈ g.liveEdges, (e.target == s) = true := by
    rw [← exists_liveNumber, ← hg.incoming_eq s state hs]
    simp
  simp only [isUsed, hs, Option.any_some, Bool.or_eq_true, beq_iff_eq, Bool.not_eq_true', leaves,
    enters, Touched, and_or_left, exists_or, or_comm]

theorem mem_usedStates (hg : g.Intact) : s ∈ g.usedStates ↔ g.IsLive s ∧ g.Touched s := by
  rw [usedStates, List.mem_filter, mem_liveStates]
  constructor
  · rintro ⟨live, used⟩
    exact ⟨live, (hg.isUsed_iff live).mp used⟩
  · rintro ⟨live, touched⟩
    exact ⟨live, (hg.isUsed_iff live).mpr touched⟩

end Intact

theorem rising_usedStates : g.usedStates.Pairwise (· < ·) :=
  (List.pairwise_lt_range.filter _).filter _

theorem nodup_usedStates : g.usedStates.Nodup :=
  rising_usedStates.imp Nat.ne_of_lt

/-- Every kept state has a place of its own. -/
theorem usedStates_inj {s s' p p' : Nat} (hp : g.usedStates[p]? = some s)
    (hp' : g.usedStates[p']? = some s') : s = s' ↔ p = p' := by
  constructor
  · rintro rfl
    exact (List.getElem?_inj (List.getElem?_eq_some_iff.mp hp).1 nodup_usedStates).mp
      (hp.trans hp'.symm)
  · rintro rfl
    exact Option.some.inj (hp.symm.trans hp')

/-- The edges of a compaction before repeated ones are dropped. -/
def renumberedEdges (g : Graph ν) : List (Edge ν) :=
  g.liveEdges.filterMap (rename? (Numbering.ofList g.usedStates))

theorem rename?_usedStates {e f : Edge ν} :
    rename? (Numbering.ofList g.usedStates) e = some f ↔ e.Renumbered g.usedStates f := by
  rw [rename?_eq_some_iff, Numbering.place?_ofList nodup_usedStates,
    Numbering.place?_ofList nodup_usedStates]
  rfl

/-- Both ends of a live transition are kept. -/
theorem exists_renumbered (hg : g.Intact) :
    ∀ e ∈ g.liveEdges, ∃ f, e.Renumbered g.usedStates f := by
  have place {r : Nat} (live : g.IsLive r) (touched : g.Touched r) :
      ∃ p, g.usedStates[p]? = some r :=
    List.mem_iff_getElem?.mp (hg.mem_usedStates.mpr ⟨live, touched⟩)
  intro e he
  obtain ⟨source, target⟩ := hg.isLive_ends he
  obtain ⟨p, hp⟩ := place source (.inr ⟨e, he, .inl rfl⟩)
  obtain ⟨q, hq⟩ := place target (.inr ⟨e, he, .inr rfl⟩)
  exact ⟨⟨p, q, e.condition⟩, hp, hq, rfl⟩

/-- No live transition is dropped. -/
theorem forall₂_renumberedEdges (hg : g.Intact) :
    List.Forall₂ (Edge.Renumbered g.usedStates) g.liveEdges g.renumberedEdges := by
  have all := exists_renumbered hg
  unfold renumberedEdges
  generalize g.liveEdges = es at all
  induction es with
  | nil => exact .nil
  | cons e es ih =>
    obtain ⟨⟨f, renumbered⟩, rest⟩ := List.forall_mem_cons.mp all
    rw [List.filterMap_cons, rename?_usedStates.mpr renumbered]
    exact .cons renumbered (ih rest)

theorem joins_renumberedEdges (accepting : Nat → Bool) :
    Joins (g.usedStates.map accepting).length g.renumberedEdges := by
  intro f hf
  obtain ⟨e, -, renamed⟩ := List.mem_filterMap.mp hf
  obtain ⟨source, target, -⟩ := rename?_usedStates.mp renamed
  rw [List.length_map]
  exact ⟨(List.getElem?_eq_some_iff.mp source).1, (List.getElem?_eq_some_iff.mp target).1⟩

theorem size_connects (g : Graph ν) (edges : List (Edge ν)) :
    (edges.foldl connect g).states.size = g.states.size := by
  induction edges generalizing g with
  | nil => rfl
  | cons e rest ih => exact (ih _).trans (by simp [connect])

theorem size_build {accepting : List Bool} {edges : List (Edge ν)} {initial : Option Nat} :
    (build tag accepting edges initial).states.size = accepting.length := by
  have bare := congrArg List.length (states_addBareStates (empty tag : Graph ν) accepting)
  refine (size_connects _ edges).trans (bare.trans ?_)
  simp [empty]

end

section
variable {ν : Type} [DecidableEq ν] [Hashable ν] {g : Graph ν} {tag : Nat}

theorem compact_eq (tag : Nat) (g : Graph ν) : g.compact tag =
    build tag (g.usedStates.map g.isAccepting) (distinct g.renumberedEdges)
      (g.initial.bind (Numbering.ofList g.usedStates).place?) := by
  have edges : (g.liveTransitions.filterMap fun t =>
      rename? (Numbering.ofList g.usedStates) t.1.toEdge) = g.renumberedEdges := by
    rw [renumberedEdges, liveEdges, List.filterMap_map]
    rfl
  rw [← edges]
  rfl

theorem joins_compact :
    Joins (g.usedStates.map g.isAccepting).length (distinct g.renumberedEdges) :=
  fun f hf => joins_renumberedEdges g.isAccepting f (mem_distinct.mp hf)

theorem liveEdges_compact (tag : Nat) : (g.compact tag).liveEdges = distinct g.renumberedEdges := by
  rw [compact_eq, liveEdges, liveTransitions_build]

theorem initial_compact (hg : g.Intact) (tag : Nat) :
    Option.Rel (fun s p => g.usedStates[p]? = some s) g.initial (g.compact tag).initial := by
  change Option.Rel _ g.initial (g.initial.bind (Numbering.ofList g.usedStates).place?)
  cases start : g.initial with
  | none => exact .none
  | some i =>
    have used : i ∈ g.usedStates := hg.mem_usedStates.mpr ⟨hg.initial_live i start, .inl start⟩
    obtain ⟨p, hp⟩ := List.mem_iff_getElem?.mp used
    rw [Option.bind_some, (Numbering.place?_ofList nodup_usedStates).mpr hp]
    exact .some hp

theorem intact_compact : (g.compact tag).Intact := by
  rw [compact_eq]
  refine intact_build joins_compact ?_
  intro p hp
  obtain ⟨i, -, place⟩ := Option.bind_eq_some_iff.mp hp
  have kept := (Numbering.place?_ofList nodup_usedStates).mp place
  simpa using (List.getElem?_eq_some_iff.mp kept).1

theorem compacted_compact (hg : g.Intact) (tag : Nat) :
    g.Compacted (g.compact tag) g.usedStates where
  rising := rising_usedStates
  mem_kept s := hg.mem_usedStates
  states := by rw [compact_eq, size_build, List.length_map]
  live p hp := by
    rw [compact_eq, isLive_build, List.length_map]
    exact hp
  accepting p s hp := by
    rw [compact_eq, isAccepting_build, List.getElem?_map, hp]
    rfl
  initial := initial_compact hg tag
  transitions := by rw [liveEdges_compact, compact_eq, transitions_build]
  edges := by
    rw [liveEdges_compact]
    exact ⟨_, forall₂_renumberedEdges hg, .distinct _⟩
  nodup := by
    rw [liveEdges_compact]
    exact nodup_distinct _

/-- A compaction is a copy. -/
theorem copies_compact (hg : g.Intact) :
    Copies g (g.compact tag) fun s p => g.usedStates[p]? = some s where
  bound s p hp := by
    have used := hg.mem_usedStates.mp (List.mem_of_getElem? hp)
    refine ⟨used.1.lt, ?_⟩
    rw [(compacted_compact hg tag).states]
    exact (List.getElem?_eq_some_iff.mp hp).1
  same s p hp s' p' hp' := usedStates_inj hp hp'
  accepting s p hp := (compacted_compact hg tag).accepting p s hp
  outgoing s p hp := by
    have copies := forall₂_renumberedEdges hg
    rw [liveEdges, ← Function.comp_def Transition.toEdge Prod.fst, ← List.map_map,
      map_fst_liveTransitions, List.forall₂_map_left_iff] at copies
    have own := List.rel_filter (p := fun t => t.source == s) (q := fun f => f.source == p)
      (fun t f renumbered => by
        simp only [beq_iff_eq]
        exact usedStates_inj renumbered.1 hp) copies
    have thin := ((Thins.distinct g.renumberedEdges).filter fun f => f.source == p).map
      fun f => (⟨f, false⟩ : Transition ν)
    refine ⟨_, ?_, by simpa only [compact_eq, outgoing_build joins_compact] using thin⟩
    rw [List.forall₂_map_right_iff, hg.outgoing, ← List.filter_filter, List.filter_comm]
    exact own.imp fun t f renumbered => ⟨renumbered.2.1, renumbered.2.2⟩
  initial := initial_compact hg tag

/-- Every state of a compaction is used. -/
theorem touched_compact (hg : g.Intact) {p : Nat} (lt : p < g.usedStates.length) :
    (g.compact tag).Touched p := by
  have hp : g.usedStates[p]? = some g.usedStates[p] := List.getElem?_eq_getElem lt
  generalize g.usedStates[p] = s at hp
  rcases (hg.mem_usedStates.mp (List.mem_of_getElem? hp)).2 with start | ⟨e, he, atEnd⟩
  · have first := initial_compact hg tag
    rw [start] at first
    cases h : (g.compact tag).initial with
    | none =>
      rw [h] at first
      cases first
    | some q =>
      rw [h, Option.rel_some_some] at first
      exact .inl (by rw [h, (usedStates_inj first hp).mp rfl])
  · obtain ⟨f, renumbered⟩ := exists_renumbered hg e he
    have kept : f ∈ (g.compact tag).liveEdges := by
      rw [liveEdges_compact, mem_distinct]
      exact List.mem_filterMap.mpr ⟨e, he, rename?_usedStates.mpr renumbered⟩
    refine .inr ⟨f, kept, atEnd.imp ?_ ?_⟩
    · exact fun same => (usedStates_inj renumbered.1 hp).mp same
    · exact fun same => (usedStates_inj renumbered.2.1 hp).mp same

theorem usedStates_compact (hg : g.Intact) (tag : Nat) :
    (g.compact tag).usedStates = List.range g.usedStates.length := by
  have compacted := compacted_compact hg tag
  have live : (g.compact tag).liveStates = List.range g.usedStates.length := by
    rw [liveStates, compacted.states]
    refine List.filter_eq_self.mpr fun p hp => ?_
    obtain ⟨state, found, alive⟩ := compacted.live p (List.mem_range.mp hp)
    simp [found, alive]
  rw [usedStates, live]
  refine List.filter_eq_self.mpr fun p hp => ?_
  have lt := List.mem_range.mp hp
  exact (intact_compact.isUsed_iff (compacted.live p lt)).mpr (touched_compact hg lt)

/-- A compaction is its own compaction, but for the tag. -/
theorem compact_compact (hg : g.Intact) (tag' : Nat) :
    (g.compact tag).compact tag' = { g.compact tag with tag := tag' } := by
  have compacted := compacted_compact hg tag
  have used := usedStates_compact hg tag
  have self {p : Nat} (live : (g.compact tag).IsLive p) :
      (g.compact tag).usedStates[p]? = some p := by
    rw [used, List.getElem?_range (compacted.states ▸ live.lt)]
  have flags : (g.compact tag).usedStates.map (g.compact tag).isAccepting =
      g.usedStates.map g.isAccepting := by
    rw [used]
    refine List.ext_getElem (by simp) fun p lt _ => ?_
    rw [List.length_map, List.length_range] at lt
    simp [compacted.accepting p _ (List.getElem?_eq_getElem lt)]
  have edges : (g.compact tag).renumberedEdges = distinct g.renumberedEdges := by
    rw [← liveEdges_compact tag, renumberedEdges]
    conv_rhs => rw [← List.filterMap_some (l := (g.compact tag).liveEdges)]
    refine List.filterMap_congr fun e he => rename?_usedStates.mpr ?_
    obtain ⟨source, target⟩ := intact_compact.isLive_ends he
    exact ⟨self source, self target, rfl⟩
  have start : (g.compact tag).initial.bind
      (Numbering.ofList (g.compact tag).usedStates).place? = (g.compact tag).initial := by
    cases first : (g.compact tag).initial with
    | none => rfl
    | some p =>
      rw [Option.bind_some, Numbering.place?_ofList nodup_usedStates]
      exact self (intact_compact.initial_live p first)
  rw [compact_eq tag', flags, edges, start, distinct_eq_self (nodup_distinct _)]
  conv_rhs => rw [compact_eq, tag_build]
  rfl

end

section
variable {ν : Type} [DecidableEq ν]

open Sketch

/-- The changes that add a state, which accepts or does not. -/
def stateEdits (tag : Nat) (a : Bool × Nat) : List (Edit ν) :=
  .addState :: if a.1 then [.setAccepting ⟨tag, a.2⟩] else []

/-- The change that adds an edge, unless it is there. -/
def edgeEdit (tag : Nat) (e : Edge ν) : Edit ν :=
  .addTransitionOnce ⟨tag, e.source⟩ ⟨tag, e.target⟩ e.condition

variable [Hashable ν]

/-- The changes that make the compaction of an automaton from nothing. -/
def compaction (tag : Nat) (g : Graph ν) : List (Edit ν) :=
  (g.usedStates.map g.isAccepting).zipIdx.flatMap (stateEdits tag) ++
    g.renumberedEdges.map (edgeEdit tag) ++
    (g.initial.bind (Numbering.ofList g.usedStates).place?).toList.map fun p =>
      .setInitial ⟨tag, p⟩

/-- None of these changes fails, and they come to the compaction. -/
theorem perform_compaction (tag : Nat) (g : Graph ν) :
    (empty tag).perform (g.compaction tag) = .ok (g.compact tag) := by
  let accepting := g.usedStates.map g.isAccepting
  let start := g.initial.bind (Numbering.ofList g.usedStates).place?
  have states : Makes nothing (accepting.zipIdx.flatMap Addition.told) ⟨accepting, [], none⟩ :=
    makes_told (d := (nothing : Sketch ν)) accepting
  have edges : Makes ⟨accepting, [], none⟩ (g.renumberedEdges.map .edgeOnce)
      ⟨accepting, distinct g.renumberedEdges, none⟩ := by
    have once := makes_edgesOnce (d := (⟨accepting, [], none⟩ : Sketch ν))
      (joins_renumberedEdges g.isAccepting)
    rwa [foldl_includeEdge fun _ _ => List.not_mem_nil] at once
  have initial : Makes ⟨accepting, distinct g.renumberedEdges, none⟩ (start.toList.map .initial)
      ⟨accepting, distinct g.renumberedEdges, start⟩ := by
    refine makes_initial rfl fun p hp => ?_
    obtain ⟨i, -, place⟩ := Option.bind_eq_some_iff.mp hp
    have kept := (Numbering.place?_ofList nodup_usedStates).mp place
    simpa [accepting] using (List.getElem?_eq_some_iff.mp kept).1
  have told : stateEdits tag = fun a => (Addition.told a).map (Addition.edit (ν := ν) tag) := by
    funext ⟨accepts, s⟩
    cases accepts with
    | false => rfl
    | true => rfl
  have edits : g.compaction tag = (accepting.zipIdx.flatMap Addition.told ++
      g.renumberedEdges.map Addition.edgeOnce ++
        start.toList.map Addition.initial).map (Addition.edit tag) := by
    rw [List.map_append, List.map_append, List.map_flatMap, List.map_map, List.map_map, ← told]
    rfl
  rw [edits, compact_eq]
  exact perform_of_makes ((states.append edges).append initial) tag

end

/-- Searches by backtracking have the same outcome after compaction. -/
theorem find?_compact_nfa {g : Automaton} (hg : g.Intact) (tag : Nat) (input : Input) :
    (g.compact tag).find? .nfa input = g.find? .nfa input :=
  ((copies_compact hg).mirrors Nested.probe).find?_eq hg intact_compact input

/-- Searches that succeed have the same outcome after compaction. -/
theorem find?_compact_ok {g : Automaton} (hg : g.Intact) (tag : Nat) {mode : Mode} {input : Input}
    {r : Option Match} (ok : g.find? mode input = .ok r) :
    (g.compact tag).find? mode input = .ok r := by
  by_cases nfa : mode = .nfa
  · subst nfa
    exact (find?_compact_nfa hg tag input).trans ok
  · cases hw : input.window? with
    | none =>
      rw [find?_of_invalid hw] at ok ⊢
      exact ok
    | some window =>
      obtain ⟨n, searched, rfl⟩ := search_of_find? hw ok
      refine find?_of_search hw ?_
      rw [search_eq_walk nfa, Nested.ready_eq] at searched ⊢
      exact ((copies_compact hg).replace Nested.trial).walk_ok searched

/-- A compaction has what is in use of an automaton and nothing else, in the order of the automaton.
It can be made change by change, and it is found to behave as the automaton does: searches by
backtracking come to the same outcome, a failure included, and other searches come to the same
outcome as long as they succeed in the automaton. A second compaction changes the tag only. -/
theorem compact_spec {g : Automaton} (hg : g.HasHistory) (tag tag' : Nat) :
    g.Compacted (g.compact tag) g.usedStates ∧
      (empty tag).perform (g.compaction tag) = .ok (g.compact tag) ∧
      (∀ input, (g.compact tag).find? .nfa input = g.find? .nfa input) ∧
      (∀ mode input r, g.find? mode input = .ok r →
        (g.compact tag).find? mode input = .ok r) ∧
      (g.compact tag).compact tag' = { g.compact tag with tag := tag' } :=
  ⟨compacted_compact hg.intact tag, perform_compaction tag g, find?_compact_nfa hg.intact tag,
    fun _ _ _ ok => find?_compact_ok hg.intact tag ok, compact_compact hg.intact tag'⟩

/-- Its second state is deleted, its fourth one idle, and it has a transition twice. -/
def worn : Automaton :=
  (Graph.empty 0).replay [.addState, .addState, .addState, .addState, .addState,
    .setInitial ⟨0, 0⟩, .setAccepting ⟨0, 4⟩, .addTransition ⟨0, 0⟩ ⟨0, 1⟩ .sigma,
    .addTransition ⟨0, 0⟩ ⟨0, 2⟩ (.char 'a'), .addTransition ⟨0, 2⟩ ⟨0, 4⟩ .sigma,
    .addTransition ⟨0, 0⟩ ⟨0, 2⟩ (.char 'a'), .deleteState ⟨0, 1⟩]

theorem compact_spec_worn : worn.HasHistory ∧ worn.usedStates = [0, 2, 4] ∧
    (worn.compact 1).states.size = 3 ∧
      (∃ es, List.Forall₂ (Edge.Renumbered [0, 2, 4])
        [⟨0, 2, .char 'a'⟩, ⟨2, 4, .sigma⟩, ⟨0, 2, .char 'a'⟩] es ∧
          Thins es (worn.compact 1).liveEdges) ∧
      (worn.compact 1).find? .nfa (.ofText "a") = worn.find? .nfa (.ofText "a") := by
  have history : worn.HasHistory := ⟨0, _, rfl⟩
  have used : worn.usedStates = [0, 2, 4] := rfl
  obtain ⟨compacted, -, same, -, -⟩ := compact_spec history 1 2
  rw [used] at compacted
  exact ⟨history, used, compacted.states, compacted.edges, same _⟩

end Graph

end PatternAutomata
