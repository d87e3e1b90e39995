import PatternAutomata.Proofs.Intact

/-!
# Automata made from lists of edges

What `build` makes is read off its arguments: the states are numbered as given, nothing is deleted,
and a state keeps its edges in the order in which they are given.
-/
namespace PatternAutomata.Graph

variable {ν : Type}

/-- The edges join states below a bound. -/
def Joins (n : Nat) (edges : List (Edge ν)) : Prop := ∀ e ∈ edges, e.source < n ∧ e.target < n

theorem states_addBareStates (g : Graph ν) (accepting : List Bool) :
    (accepting.foldl addBareState g).states.toList =
      g.states.toList ++ accepting.map State.bare := by
  induction accepting generalizing g with
  | nil => simp
  | cons a rest ih => simp [ih, addBareState]

theorem transitions_addBareStates (g : Graph ν) (accepting : List Bool) :
    (accepting.foldl addBareState g).transitions = g.transitions := by
  induction accepting generalizing g with
  | nil => rfl
  | cons a rest ih => exact ih _

theorem isLive_addBareStates {tag : Nat} {accepting : List Bool} {s : Nat} :
    (accepting.foldl addBareState (Graph.empty tag : Graph ν)).IsLive s ↔ s < accepting.length := by
  have states := states_addBareStates (Graph.empty tag : Graph ν) accepting
  simp only [IsLive, ← Array.getElem?_toList, states]
  constructor
  · rintro ⟨state, hs, _⟩
    simpa [Graph.empty] using (List.getElem?_eq_some_iff.mp hs).1
  · intro hs
    exact ⟨State.bare accepting[s], by simp [Graph.empty, hs], rfl⟩

theorem isLive_connects {g : Graph ν} {edges : List (Edge ν)} {s : Nat} :
    (edges.foldl connect g).IsLive s ↔ g.IsLive s := by
  induction edges generalizing g with
  | nil => rfl
  | cons e rest ih => exact ih.trans isLive_connect

theorem transitions_connects (g : Graph ν) (edges : List (Edge ν)) :
    (edges.foldl connect g).transitions.toList =
      g.transitions.toList ++ edges.map fun e => ⟨e, false⟩ := by
  induction edges generalizing g with
  | nil => simp
  | cons e rest ih => simp [ih, connect]

theorem flags_connects {g : Graph ν} {edges : List (Edge ν)} {s : Nat} :
    (edges.foldl connect g).isAccepting s = g.isAccepting s := by
  induction edges generalizing g with
  | nil => rfl
  | cons e rest ih =>
    rw [List.foldl_cons, ih, isAccepting, isAccepting, getElem?_connect, Option.any_map]

theorem Intact.addBareStates {g : Graph ν} (h : g.Intact) (accepting : List Bool) :
    (accepting.foldl Graph.addBareState g).Intact := by
  induction accepting generalizing g with
  | nil => exact h
  | cons a rest ih => exact ih (h.addBareState a)

theorem Intact.connects {g : Graph ν} (h : g.Intact) {edges : List (Edge ν)}
    (he : ∀ e ∈ edges, g.IsLive e.source ∧ g.IsLive e.target) :
    (edges.foldl Graph.connect g).Intact := by
  induction edges generalizing g with
  | nil => exact h
  | cons e rest ih =>
    have ends := he e (by simp)
    exact ih (h.connect ends.1 ends.2) fun f hf =>
      (he f (by simp [hf])).imp isLive_connect.mpr isLive_connect.mpr

section
variable {tag : Nat} {accepting : List Bool} {edges : List (Edge ν)} {initial : Option Nat}

theorem isLive_build {s : Nat} :
    (build tag accepting edges initial).IsLive s ↔ s < accepting.length :=
  isLive_connects.trans isLive_addBareStates

theorem transitions_build : (build tag accepting edges initial).transitions.toList =
    edges.map fun e => ⟨e, false⟩ := by
  rw [build, transitions_connects, transitions_addBareStates]
  simp [Graph.empty]

theorem isAccepting_build {s : Nat} :
    (build tag accepting edges initial).isAccepting s = accepting[s]?.getD false := by
  have states := states_addBareStates (Graph.empty tag : Graph ν) accepting
  have flags : (build tag accepting edges initial).isAccepting s =
      (accepting.foldl addBareState (Graph.empty tag : Graph ν)).isAccepting s := flags_connects
  rw [flags, isAccepting, ← Array.getElem?_toList, states]
  cases h : accepting[s]? <;> simp [Graph.empty, State.bare, h]

/-- One of the states accepts. -/
theorem isAccepting_build_single {n x s : Nat} (hx : x < n) :
    (build tag ((List.range n).map (· == x)) edges initial).isAccepting s = true ↔ s = x := by
  rw [isAccepting_build]
  by_cases hs : s < n
  · simp [hs]
  · simp [hs]
    omega

theorem intact_build (he : Joins accepting.length edges)
    (hi : ∀ s, initial = some s → s < accepting.length) :
    (build tag accepting edges initial).Intact := by
  have bare := (Intact.empty tag : (Graph.empty tag : Graph ν).Intact).addBareStates accepting
  have h : (edges.foldl connect (accepting.foldl addBareState (Graph.empty tag))).Intact :=
    bare.connects fun e mem => (he e mem).imp isLive_addBareStates.mpr isLive_addBareStates.mpr
  exact ⟨h.outgoing_eq, h.incoming_eq, h.source_live, h.target_live,
    fun s hs => isLive_build.mpr (hi s hs)⟩

theorem outgoing_build (he : Joins accepting.length edges) (s : Nat) :
    (build tag accepting edges initial).outgoing s =
      (edges.filter fun e => e.source == s).map fun e => ⟨e, false⟩ := by
  have h : (build tag accepting edges none).Intact := intact_build he (by simp)
  have same : (build tag accepting edges initial).outgoing s =
      (build tag accepting edges none).outgoing s := rfl
  rw [same, h.outgoing, transitions_build, List.filter_map]
  rfl

/-- Edges that are listed by their sources, filtered by one source. -/
theorem filter_source_flatMap {α : Type} {f : α × Nat → List (Edge ν)}
    (h : ∀ p, ∀ e ∈ f p, e.source = p.2) (xs : List α) (next s : Nat) :
    ((xs.zipIdx next).flatMap f).filter (fun e => e.source == next + s) =
      (xs[s]?.map fun x => f (x, next + s)).getD [] := by
  induction xs generalizing next s with
  | nil => rfl
  | cons x xs ih =>
    rw [List.zipIdx_cons, List.flatMap_cons, List.filter_append]
    cases s with
    | zero =>
      have own : (f (x, next)).filter (fun e => e.source == next + 0) = f (x, next) :=
        List.filter_eq_self.mpr fun e he => by simp [h _ e he]
      have others :
          ((xs.zipIdx (next + 1)).flatMap f).filter (fun e => e.source == next + 0) = [] := by
        refine List.filter_eq_nil_iff.mpr fun e he => ?_
        obtain ⟨p, hp, he⟩ := List.mem_flatMap.mp he
        have := List.le_snd_of_mem_zipIdx hp
        rw [h p e he]
        simp only [beq_iff_eq]
        omega
      rw [own, others]
      simp
    | succ s =>
      have none : (f (x, next)).filter (fun e => e.source == next + (s + 1)) = [] :=
        List.filter_eq_nil_iff.mpr fun e he => by
          rw [h _ e he]
          simp only [beq_iff_eq]
          omega
      have shift : next + (s + 1) = next + 1 + s := by omega
      rw [none, List.nil_append, shift, ih, List.getElem?_cons_succ]

theorem tag_addBareStates (g : Graph ν) (accepting : List Bool) (tag : Nat) :
    accepting.foldl addBareState { g with tag } = { accepting.foldl addBareState g with tag } := by
  induction accepting generalizing g with
  | nil => rfl
  | cons a rest ih => exact ih (g.addBareState a)

theorem tag_connects (g : Graph ν) (edges : List (Edge ν)) (tag : Nat) :
    edges.foldl connect { g with tag } = { edges.foldl connect g with tag } := by
  induction edges generalizing g with
  | nil => rfl
  | cons e rest ih => exact ih (g.connect e)

theorem tag_build (tag' : Nat) :
    { build tag accepting edges initial with tag := tag' } =
      build tag' accepting edges initial := by
  have bare := tag_addBareStates (empty tag : Graph ν) accepting tag'
  unfold build
  change _ = { edges.foldl connect (accepting.foldl addBareState { empty tag with tag := tag' })
    with initial }
  rw [bare, tag_connects]

theorem tag_of_build : (build tag accepting edges initial).tag = tag :=
  congrArg Graph.tag (@tag_build ν tag accepting edges initial tag).symm

end

theorem liveState_eq {g : Graph ν} {s : Nat} {state : State} (hs : g.states[s]? = some state)
    (alive : state.deleted = false) : g.liveState ⟨g.tag, s⟩ = .ok state := by
  simp [liveState, ownState, state?, hs, alive, bind, Except.bind]

end PatternAutomata.Graph
