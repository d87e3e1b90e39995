import PatternAutomata.Proofs.Compaction
import PatternAutomata.Proofs.Histories

/-!
# Deleting a state

A state goes together with its transitions, which are deleted one after another. A change in place
(`Change`) that failed on the way would leave some of them deleted. That does not happen: a state is
refused before anything is changed, or each of its transitions is deleted once and nothing else is
touched (`deleteState_spec`).
-/
namespace PatternAutomata.Graph

variable {ν : Type}

/-- Automata are equal that have equal elements in equal places. -/
theorem ext_places {g g' : Graph ν} (tag : g.tag = g'.tag) (initial : g.initial = g'.initial)
    (states : ∀ s : Nat, g.states[s]? = g'.states[s]?)
    (transitions : ∀ i : Nat, g.transitions[i]? = g'.transitions[i]?) : g = g' := by
  obtain ⟨t, ss, ts, i⟩ := g
  obtain ⟨t', ss', ts', i'⟩ := g'
  cases tag
  cases initial
  cases Array.ext_getElem? states
  cases Array.ext_getElem? transitions
  rfl

/-- Whether the transition of a number is alive and leaves or enters a state. -/
def isAttached (g : Graph ν) (s i : Nat) : Bool :=
  g.transitions[i]?.any fun t => !t.deleted && (t.source == s || t.target == s)

theorem isAttached_iff {g : Graph ν} {s i : Nat} : g.isAttached s i = true ↔
    ∃ t, g.transitions[i]? = some t ∧ t.deleted = false ∧ (t.source = s ∨ t.target = s) := by
  simp [isAttached, Option.any_eq_true]

/-- Why a state is not deleted. A name that is not the automaton's own comes first, a state that is
deleted already second. -/
inductive Refuses (g : Graph ν) (id : StateId) : Error → Prop where
  | foreign (unknown : g.state? id = none) : Refuses g id (.foreignState id.index)
  | deleted {s : State} (known : g.state? id = some s) (gone : s.deleted = true) :
      Refuses g id (.stateAlreadyDeleted id.index)
  | initial {s : State} (known : g.state? id = some s) (alive : s.deleted = false)
      (initial : g.initial = some id.index) : Refuses g id (.initialStateDeletion id.index)

/-- The second automaton is the first one after a state was deleted. All transitions of the state
are deleted and no longer listed, and everything else is as it was. -/
structure Deletes (g : Graph ν) (s : Nat) (g' : Graph ν) : Prop where
  tag : g'.tag = g.tag
  initial : g'.initial = g.initial
  state : ∃ old, g.states[s]? = some old ∧ g'.states[s]? = some ⟨old.accepting, true, #[], #[]⟩
  others : ∀ r, r ≠ s → g'.states[r]? = g.states[r]?.map fun old =>
    { old with
      incoming := old.incoming.filter fun i => !g.isAttached s i
      outgoing := old.outgoing.filter fun i => !g.isAttached s i }
  transitions : ∀ i, g'.transitions[i]? = g.transitions[i]?.map fun t =>
    if g.isAttached s i then { t with deleted := true } else t

theorem Deletes.unique {g g' g'' : Graph ν} {s : Nat} (h : g.Deletes s g')
    (k : g.Deletes s g'') : g' = g'' := by
  refine ext_places (h.tag.trans k.tag.symm) (h.initial.trans k.initial.symm) ?_ ?_
  · intro r
    by_cases same : r = s
    · subst same
      obtain ⟨old, found, left⟩ := h.state
      obtain ⟨old', found', left'⟩ := k.state
      cases found.symm.trans found'
      rw [left, left']
    · rw [h.others r same, k.others r same]
  · intro i
    rw [h.transitions, k.transitions]

/-- The automaton with some transitions deleted and unlinked, all at once. -/
def without (g : Graph ν) (p : Nat → Bool) : Graph ν where
  tag := g.tag
  states := g.states.map fun s =>
    { s with
      incoming := s.incoming.filter fun i => !p i
      outgoing := s.outgoing.filter fun i => !p i }
  transitions := g.transitions.mapIdx fun i t => if p i then { t with deleted := true } else t
  initial := g.initial

theorem getElem?_without (g : Graph ν) (p : Nat → Bool) (s : Nat) :
    (g.without p).states[s]? = g.states[s]?.map fun state =>
      { state with
        incoming := state.incoming.filter fun i => !p i
        outgoing := state.outgoing.filter fun i => !p i } := by
  simp [without]

theorem getElem?_transitions_without (g : Graph ν) (p : Nat → Bool) (i : Nat) :
    (g.without p).transitions[i]? =
      g.transitions[i]?.map fun t => if p i then { t with deleted := true } else t := by
  simp [without]

theorem without_none (g : Graph ν) : g.without (fun _ => false) = g := by
  have all (number : Array Nat) : (number.filter fun _ => true) = number :=
    Array.filter_eq_self.mpr fun _ _ => rfl
  refine ext_places rfl rfl ?_ ?_
  · intro s
    simp [getElem?_without, all]
  · intro i
    simp [getElem?_transitions_without]

theorem without_without (g : Graph ν) (p q : Nat → Bool) :
    (g.without p).without q = g.without fun i => p i || q i := by
  have transitions (i : Nat) (t : Transition ν) :
      (if q i then { (if p i then { t with deleted := true } else t) with deleted := true }
        else if p i then { t with deleted := true } else t) =
      if p i || q i then { t with deleted := true } else t := by
    cases p i <;> cases q i <;> rfl
  simp [without, Function.comp_def, transitions, Bool.and_comm]

namespace Intact

variable {g : Graph ν}

/-- Only live transitions are listed, so that it does not matter which others are deleted. -/
theorem without_congr (h : g.Intact) {p q : Nat → Bool}
    (same : ∀ (i : Nat) t, g.transitions[i]? = some t → t.deleted = false → p i = q i) :
    g.without p = g.without q := by
  have listed {number : Array Nat} {test : Transition ν → Bool}
      (eq : number.toList = g.liveNumbers test) :
      number.filter (fun i => !p i) = number.filter fun i => !q i := by
    apply Array.toList_inj.mp
    rw [Array.toList_filter, Array.toList_filter, eq]
    apply List.filter_congr
    intro i hi
    obtain ⟨t, ht, alive, -⟩ := mem_liveNumbers.mp hi
    rw [same i t ht alive]
  refine ext_places rfl rfl ?_ ?_
  · intro s
    rw [getElem?_without, getElem?_without]
    apply Option.map_congr
    intro state hs
    rw [listed (h.incoming_eq s state hs), listed (h.outgoing_eq s state hs)]
  · intro i
    rw [getElem?_transitions_without, getElem?_transitions_without]
    apply Option.map_congr
    intro t ht
    cases gone : t.deleted with
    | true =>
      have kept : { t with deleted := true } = t := by rw [← gone]
      rw [kept, ite_self, ite_self]
    | false => rw [same i t ht gone]

/-- Nothing lists a transition apart from its two ends. -/
theorem unlink_eq (h : g.Intact) {i : Nat} {t : Transition ν} (ht : g.transitions[i]? = some t) :
    g.unlink i = g.without (· == i) := by
  have kept {number : Array Nat} {test : Transition ν → Bool} (other : test t = false)
      (eq : number.toList = g.liveNumbers test) : number.filter (fun j => !(j == i)) = number := by
    apply Array.toList_inj.mp
    rw [Array.toList_filter, eq]
    apply List.filter_eq_self.mpr
    intro j hj
    obtain ⟨u, hu, -, passes⟩ := mem_liveNumbers.mp hj
    have ne : j ≠ i := by
      rintro rfl
      cases ht.symm.trans hu
      exact absurd (other.symm.trans passes) (by decide)
    simpa using ne
  have removed (number : Array Nat) : number.filter (· ≠ i) = number.filter fun j => !(j == i) := by
    congr 1
    funext j
    simp [Bool.beq_eq_decide_eq]
  refine ext_places (by simp [Graph.unlink, ht, without]) (by simp [Graph.unlink, ht, without])
    ?_ ?_
  · intro s
    rw [getElem?_unlink g ht, getElem?_without]
    apply Option.map_congr
    intro state hs
    rw [removed, removed]
    congr 1
    · split
      · rfl
      · next other => exact (kept (by simpa using other) (h.incoming_eq s state hs)).symm
    · split
      · rfl
      · next other => exact (kept (by simpa using other) (h.outgoing_eq s state hs)).symm
  · intro j
    rw [getElem?_transitions_unlink g ht, getElem?_transitions_without]
    by_cases same : i = j
    · subst same
      simp [ht]
    · simp [same, Ne.symm same]

/-- Deleting transitions one after another, those left out that are deleted by then, deletes them
all. -/
theorem deleteTransitions_eq (h : g.Intact) {ts : List Nat}
    (there : ∀ i ∈ ts, i < g.transitions.size) :
    g.deleteTransitions ts = .ok (g.without fun i => ts.contains i) := by
  induction ts generalizing g with
  | nil => exact congrArg Except.ok (without_none g).symm
  | cons j rest ih =>
    obtain ⟨lt, others⟩ := List.forall_mem_cons.mp there
    obtain ⟨t, ht⟩ : ∃ t, g.transitions[j]? = some t := ⟨_, Array.getElem?_eq_getElem lt⟩
    rw [deleteTransitions, ht]
    cases gone : t.deleted with
    | true =>
      rw [Option.any_some, gone, if_pos rfl, ih h others]
      congr 1
      apply h.without_congr
      intro i u hu alive
      have ne : i ≠ j := by
        rintro rfl
        cases ht.symm.trans hu
        exact absurd (gone.symm.trans alive) (by decide)
      simp [ne]
    | false =>
      have step : g.deleteTransition ⟨g.tag, j⟩ = .ok (g.unlink j) := by
        simp [deleteTransition, transition?, ht, gone]
      have size : (g.unlink j).transitions.size = g.transitions.size := by
        simp [Graph.unlink, ht]
      rw [Option.any_some, gone, if_neg (by decide), step]
      refine (ih (h.unlink j) (by rwa [size])).trans ?_
      rw [h.unlink_eq ht, without_without]
      simp only [List.contains_cons]

/-- The numbers that a state lists are those of the transitions that are attached to it. -/
theorem contains_listed (h : g.Intact) {s : Nat} {state : State} (hs : g.states[s]? = some state)
    (i : Nat) : (state.incoming ++ state.outgoing).toList.contains i = g.isAttached s i := by
  rw [Bool.eq_iff_iff, List.contains_iff_mem, isAttached_iff, Array.toList_append, List.mem_append,
    h.incoming_eq s state hs, h.outgoing_eq s state hs, mem_liveNumbers, mem_liveNumbers]
  simp only [beq_iff_eq]
  constructor
  · rintro (⟨t, ht, alive, enters⟩ | ⟨t, ht, alive, leaves⟩)
    · exact ⟨t, ht, alive, .inr enters⟩
    · exact ⟨t, ht, alive, .inl leaves⟩
  · rintro ⟨t, ht, alive, leaves | enters⟩
    · exact .inr ⟨t, ht, alive, leaves⟩
    · exact .inl ⟨t, ht, alive, enters⟩

theorem listed_lt_size (h : g.Intact) {s : Nat} {state : State} (hs : g.states[s]? = some state) :
    ∀ i ∈ (state.incoming ++ state.outgoing).toList, i < g.transitions.size := by
  intro i hi
  have attached := (h.contains_listed hs i).symm.trans (List.contains_iff_mem.mpr hi)
  obtain ⟨t, ht, -⟩ := isAttached_iff.mp attached
  exact (Array.getElem?_eq_some_iff.mp ht).1

end Intact

/-- The automaton with a state and its transitions deleted, all at once. -/
def withoutState (g : Graph ν) (s : Nat) : Graph ν :=
  let rest := g.without (g.isAttached s)
  { rest with states := rest.states.modify s fun state => { state with deleted := true } }

section

variable {g : Graph ν} {id : StateId}

theorem deletes_withoutState (h : g.Intact) {s : Nat} (live : g.IsLive s) :
    g.Deletes s (g.withoutState s) := by
  obtain ⟨old, found, -⟩ := live
  have bare (number : Array Nat) (sub : ∀ i ∈ number, i ∈ (old.incoming ++ old.outgoing).toList) :
      number.filter (fun i => !g.isAttached s i) = #[] := by
    apply Array.filter_eq_empty_iff.mpr
    intro i hi
    have attached := (h.contains_listed found i).symm.trans (List.contains_iff_mem.mpr (sub i hi))
    simp [attached]
  refine ⟨rfl, rfl, ⟨old, found, ?_⟩, ?_, ?_⟩
  · have incoming := bare old.incoming fun i hi => by simp [hi]
    have outgoing := bare old.outgoing fun i hi => by simp [hi]
    simp [withoutState, Array.getElem?_modify, getElem?_without, found, incoming, outgoing]
  · intro r other
    simp [withoutState, Array.getElem?_modify, getElem?_without, Ne.symm other]
  · exact getElem?_transitions_without g (g.isAttached s)

theorem deleteTransitions_listed (h : g.Intact) {s : Nat} {state : State}
    (hs : g.states[s]? = some state) :
    g.deleteTransitions (state.incoming ++ state.outgoing).toList =
      .ok (g.without (g.isAttached s)) := by
  rw [h.deleteTransitions_eq (h.listed_lt_size hs)]
  congr 2
  funext i
  exact h.contains_listed hs i

/-- A state is refused, or it is alive and not the initial one. -/
theorem refuses_or_spare (g : Graph ν) (id : StateId) : (∃ e, g.Refuses id e) ∨
    ∃ s, g.state? id = some s ∧ s.deleted = false ∧ g.initial ≠ some id.index := by
  cases known : g.state? id with
  | none => exact .inl ⟨_, .foreign known⟩
  | some s =>
    cases gone : s.deleted with
    | true => exact .inl ⟨_, .deleted known gone⟩
    | false =>
      by_cases initial : g.initial = some id.index
      · exact .inl ⟨_, .initial known gone initial⟩
      · exact .inr ⟨s, rfl, gone, initial⟩

theorem not_refuses_of_spare {s : State} (known : g.state? id = some s) (alive : s.deleted = false)
    (other : g.initial ≠ some id.index) (e : Error) : ¬ g.Refuses id e := by
  rintro (unknown | ⟨known', gone⟩ | ⟨-, -, initial⟩)
  · cases known.symm.trans unknown
  · cases known.symm.trans known'
    exact absurd (alive.symm.trans gone) (by decide)
  · exact other initial

theorem deleteState_of_refuses {e : Error} (h : g.Refuses id e) :
    g.deleteState id = .error e := by
  cases h with
  | foreign unknown => simp [deleteState, ownState, unknown, bind, Except.bind]
  | deleted known gone => simp [deleteState, ownState, known, bind, Except.bind, gone]
  | initial known alive initial =>
    simp [deleteState, ownState, known, bind, Except.bind, alive, initial]

theorem states_of_state? {s : State} (known : g.state? id = some s) :
    g.states[id.index]? = some s := by
  unfold state? at known
  split at known
  · exact known
  · cases known

theorem deleteState_of_spare (h : g.Intact) {s : State} (known : g.state? id = some s)
    (alive : s.deleted = false) (other : g.initial ≠ some id.index) :
    g.deleteState id = .ok (g.withoutState id.index) := by
  simp only [deleteState, ownState, known, bind, Except.bind, alive, if_neg other,
    deleteTransitions_listed h (states_of_state? known)]
  rfl

/-- A state is refused, or it is alive and deleted together with its transitions. -/
theorem deleteState_cases (h : g.Intact) (id : StateId) :
    (∃ e, g.Refuses id e ∧ g.deleteState id = .error e) ∨ (∀ e, ¬ g.Refuses id e) ∧
      g.IsLive id.index ∧ g.deleteState id = .ok (g.withoutState id.index) := by
  rcases g.refuses_or_spare id with ⟨e, refuses⟩ | ⟨s, known, alive, other⟩
  · exact .inl ⟨e, refuses, deleteState_of_refuses refuses⟩
  · exact .inr ⟨not_refuses_of_spare known alive other, ⟨s, states_of_state? known, alive⟩,
      deleteState_of_spare h known alive other⟩

end

/-- The transitions that are deleted in turn when some are to be deleted: those that are alive when
their turn comes. -/
def deletions (g : Graph ν) : List Nat → List Nat
  | [] => []
  | i :: rest =>
    if g.transitions[i]?.any Transition.deleted then g.deletions rest
    else i :: (g.unlink i).deletions rest

theorem tag_unlink (g : Graph ν) (i : Nat) : (g.unlink i).tag = g.tag := by
  unfold unlink
  split <;> rfl

/-- A transition is deleted in its turn if it is alive, and only once. -/
theorem deletions_spec {g : Graph ν} {ts : List Nat} (there : ∀ i ∈ ts, i < g.transitions.size) :
    (g.deletions ts).Nodup ∧ ∀ i, i ∈ g.deletions ts ↔
      i ∈ ts ∧ ∃ t, g.transitions[i]? = some t ∧ t.deleted = false := by
  induction ts generalizing g with
  | nil => simp [deletions]
  | cons j rest ih =>
    obtain ⟨lt, others⟩ := List.forall_mem_cons.mp there
    obtain ⟨t, ht⟩ : ∃ t, g.transitions[j]? = some t := ⟨_, Array.getElem?_eq_getElem lt⟩
    rw [deletions, ht, Option.any_some]
    cases gone : t.deleted with
    | true =>
      rw [if_pos rfl]
      obtain ⟨nodup, mem⟩ := ih others
      refine ⟨nodup, fun i => ?_⟩
      rw [mem, List.mem_cons]
      constructor
      · rintro ⟨hi, live⟩
        exact ⟨.inr hi, live⟩
      · rintro ⟨rfl | hi, u, hu, alive⟩
        · cases ht.symm.trans hu
          exact absurd (gone.symm.trans alive) (by decide)
        · exact ⟨hi, u, hu, alive⟩
    | false =>
      rw [if_neg (by decide)]
      have size : (g.unlink j).transitions.size = g.transitions.size := by simp [unlink, ht]
      obtain ⟨nodup, mem⟩ := ih (g := g.unlink j) (by rwa [size])
      simp only [getElem?_transitions_unlink g ht] at mem
      constructor
      · refine List.nodup_cons.mpr ⟨?_, nodup⟩
        rw [mem, if_pos rfl]
        rintro ⟨-, u, hu, alive⟩
        cases hu
        cases alive
      · intro i
        rw [List.mem_cons, List.mem_cons, mem]
        by_cases same : i = j
        · subst same
          simp [ht, gone]
        · simp [same, Ne.symm same]

/-- When a state is deleted, its transitions are deleted in turn, each of them once. A self loop is
listed twice and its second turn is left out. -/
theorem deletions_listed {g : Graph ν} (h : g.Intact) {s : Nat} {state : State}
    (hs : g.states[s]? = some state) :
    (g.deletions (state.incoming ++ state.outgoing).toList).Nodup ∧
      ∀ i, i ∈ g.deletions (state.incoming ++ state.outgoing).toList ↔
        g.isAttached s i = true := by
  obtain ⟨nodup, mem⟩ := deletions_spec (h.listed_lt_size hs)
  refine ⟨nodup, fun i => ?_⟩
  rw [mem, ← h.contains_listed hs, List.contains_iff_mem, and_iff_left_iff_imp]
  intro hi
  have attached := (h.contains_listed hs i).symm.trans (List.contains_iff_mem.mpr hi)
  obtain ⟨t, ht, alive, -⟩ := isAttached_iff.mp attached
  exact ⟨t, ht, alive⟩

/-- The deletions in turn come to the same as the whole. -/
theorem perform_deletions [DecidableEq ν] (g : Graph ν) (ts : List Nat) :
    g.perform ((g.deletions ts).map fun i => .deleteTransition ⟨g.tag, i⟩) =
      g.deleteTransitions ts := by
  induction ts generalizing g with
  | nil => rfl
  | cons j rest ih =>
    rw [deletions, deleteTransitions]
    split
    · exact ih g
    · rw [List.map_cons, perform, List.foldlM_cons]
      change (g.deleteTransition ⟨g.tag, j⟩ >>= _) = _
      cases step : g.deleteTransition ⟨g.tag, j⟩ with
      | error e => rfl
      | ok h =>
        obtain ⟨-, -, -, rfl⟩ := deleteTransition_ok step
        have later := ih (g.unlink j)
        rw [tag_unlink] at later
        exact later

/-- A change made in place. If it fails, then what it has done until then stays done. -/
abbrev Change (ν : Type) := ExceptT Error (StateM (Graph ν))

namespace Change

def deleteTransition (id : TransitionId) : Change ν Unit := do
  match (← get).transition? id with
  | none => throw (.foreignTransition id.index)
  | some t =>
    if t.deleted then throw (.transitionAlreadyDeleted id.index)
    else modify fun g => g.unlink id.index

/-- Deletes those of the given transitions that are still alive. -/
def deleteTransitions : List Nat → Change ν Unit
  | [] => return
  | i :: rest => do
    let g ← get
    if g.transitions[i]?.any Transition.deleted then deleteTransitions rest
    else do
      deleteTransition ⟨g.tag, i⟩
      deleteTransitions rest

def deleteState (id : StateId) : Change ν Unit := do
  let g ← get
  match g.state? id with
  | none => throw (.foreignState id.index)
  | some s =>
    if s.deleted then throw (.stateAlreadyDeleted id.index)
    else if g.initial = some id.index then throw (.initialStateDeletion id.index)
    else do
      deleteTransitions (s.incoming ++ s.outgoing).toList
      modify fun g =>
        { g with states := g.states.modify id.index fun s => { s with deleted := true } }

/-- The outcome of a change in place, and the automaton that it leaves behind. -/
def apply (c : Change ν Unit) (g : Graph ν) : Except Error Unit × Graph ν := c.run.run g

variable {g g' : Graph ν}

theorem apply_bind {c d : Change ν Unit} (done : c.apply g = (.ok (), g')) :
    (do c; d).apply g = d.apply g' := by
  unfold apply at done ⊢
  rw [ExceptT.run_bind, StateT.run_bind, done]
  rfl

theorem apply_deleteTransition {id : TransitionId} (done : g.deleteTransition id = .ok g') :
    (deleteTransition id).apply g = (.ok (), g') := by
  obtain ⟨t, known, alive, rfl⟩ := deleteTransition_ok done
  change (match g.transition? id with | none => _ | some t => _ : Change ν Unit).apply g = _
  rw [known]
  change (if t.deleted then _ else _ : Change ν Unit).apply g = _
  rw [alive]
  rfl

theorem apply_deleteTransitions {ts : List Nat} (done : g.deleteTransitions ts = .ok g') :
    (deleteTransitions ts).apply g = (.ok (), g') := by
  induction ts generalizing g with
  | nil =>
    cases done
    rfl
  | cons i rest ih =>
    rw [Graph.deleteTransitions] at done
    change (if g.transitions[i]?.any Transition.deleted then _ else _ : Change ν Unit).apply g = _
    split at done
    · next gone =>
      rw [if_pos gone]
      exact ih done
    · next alive =>
      rw [if_neg alive]
      obtain ⟨h, first, done⟩ := bind_eq_ok.mp done
      exact (apply_bind (apply_deleteTransition first)).trans (ih done)

/-- What is refused is refused before anything is changed. -/
theorem apply_deleteState_of_refuses {id : StateId} {e : Error} (h : g.Refuses id e) :
    (deleteState id).apply g = (.error e, g) := by
  change (match g.state? id with | none => _ | some s => _ : Change ν Unit).apply g = _
  cases h with
  | foreign unknown =>
    rw [unknown]
    rfl
  | deleted known gone =>
    rw [known]
    change (if _ then _ else _ : Change ν Unit).apply g = _
    rw [gone]
    rfl
  | initial known alive initial =>
    rw [known]
    change (if _ then _ else if _ then _ else _ : Change ν Unit).apply g = _
    rw [alive, if_neg (by decide), if_pos initial]
    rfl

theorem apply_deleteState_of_spare (h : g.Intact) {id : StateId} {s : State}
    (known : g.state? id = some s) (alive : s.deleted = false)
    (other : g.initial ≠ some id.index) :
    (deleteState id).apply g = (.ok (), g.withoutState id.index) := by
  have listed := apply_deleteTransitions (deleteTransitions_listed h (states_of_state? known))
  change (match g.state? id with | none => _ | some s => _ : Change ν Unit).apply g = _
  rw [known]
  change (if _ then _ else if _ then _ else _ : Change ν Unit).apply g = _
  rw [alive, if_neg (by decide), if_neg other]
  exact apply_bind listed

end Change

variable [DecidableEq ν] {g : Graph ν}

/-- A state is refused and nothing is changed, or it is deleted together with its transitions and
nothing else is touched. That is so in place as well: each transition that leaves or enters the
state is deleted once, and none of these deletions fails. -/
theorem deleteState_spec (hg : g.HasHistory) (id : StateId) :
    (∀ e, g.deleteState id = .error e ↔ g.Refuses id e) ∧
      (∀ g', g.deleteState id = .ok g' ↔ (∀ e, ¬ g.Refuses id e) ∧ g.Deletes id.index g') ∧
      ((Change.deleteState id).apply g = match g.deleteState id with
        | .ok g' => (.ok (), g')
        | .error e => (.error e, g)) ∧
      ∀ s, g.states[id.index]? = some s →
        let calls := g.deletions (s.incoming ++ s.outgoing).toList
        calls.Nodup ∧ (∀ i, i ∈ calls ↔ g.isAttached id.index i = true) ∧
          ∃ rest, g.perform (calls.map fun i => .deleteTransition ⟨g.tag, i⟩) = .ok rest ∧
            ∀ g', g.deleteState id = .ok g' → g' = { rest with
              states := rest.states.modify id.index fun s => { s with deleted := true } } := by
  have intact := hg.intact
  refine ⟨fun e => ?_, fun g' => ?_, ?_, fun s found => ?_⟩
  · refine ⟨fun failed => ?_, deleteState_of_refuses⟩
    rcases deleteState_cases intact id with ⟨e', refuses, failed'⟩ | ⟨-, -, done⟩
    · cases failed'.symm.trans failed
      exact refuses
    · cases done.symm.trans failed
  · rcases deleteState_cases intact id with ⟨e, refuses, failed⟩ | ⟨spare, live, done⟩
    · rw [failed]
      exact ⟨nofun, fun h => absurd refuses (h.1 e)⟩
    · have whole := deletes_withoutState intact live
      rw [done, Except.ok.injEq]
      exact ⟨fun same => ⟨spare, same ▸ whole⟩, fun h => whole.unique h.2⟩
  · rcases g.refuses_or_spare id with ⟨e, refuses⟩ | ⟨s, known, alive, other⟩
    · rw [deleteState_of_refuses refuses]
      exact Change.apply_deleteState_of_refuses refuses
    · rw [deleteState_of_spare intact known alive other]
      exact Change.apply_deleteState_of_spare intact known alive other
  · obtain ⟨nodup, mem⟩ := deletions_listed intact found
    refine ⟨nodup, mem, g.without (g.isAttached id.index), ?_, fun g' ok => ?_⟩
    · rw [perform_deletions, deleteTransitions_listed intact found]
    · rcases deleteState_cases intact id with ⟨e, -, failed⟩ | ⟨-, -, done⟩
      · cases failed.symm.trans ok
      · cases done.symm.trans ok
        rfl

/-- Its second state has a self loop, and two equal transitions enter it. -/
def looped : Automaton :=
  (Graph.empty 0).replay [.addState, .addState, .addState, .setInitial ⟨0, 0⟩,
    .addTransition ⟨0, 0⟩ ⟨0, 1⟩ .sigma, .addTransition ⟨0, 0⟩ ⟨0, 2⟩ .sigma,
    .addTransition ⟨0, 1⟩ ⟨0, 1⟩ (.char 'a'), .addTransition ⟨0, 0⟩ ⟨0, 1⟩ .sigma,
    .addTransition ⟨0, 1⟩ ⟨0, 2⟩ (.char 'a')]

theorem deleteState_spec_looped : looped.HasHistory ∧
    looped.deletions [0, 2, 3, 2, 4] = [0, 2, 3, 4] ∧
      looped.deleteState ⟨0, 0⟩ = .error (.initialStateDeletion 0) ∧
      ∃ g', looped.deleteState ⟨0, 1⟩ = .ok g' ∧ looped.Deletes 1 g' := by
  have history : looped.HasHistory := ⟨0, _, rfl⟩
  refine ⟨history, rfl, ?_, ?_⟩
  · exact ((deleteState_spec history ⟨0, 0⟩).1 _).mpr (.initial rfl rfl rfl)
  · cases done : looped.deleteState ⟨0, 1⟩ with
    | error e =>
      cases ((deleteState_spec history ⟨0, 1⟩).1 e).mp done with
      | foreign unknown => cases unknown
      | deleted known gone =>
        cases known
        cases gone
      | initial known alive initial => cases initial
    | ok g' => exact ⟨g', rfl, (((deleteState_spec history ⟨0, 1⟩).2.1 g').mp done).2⟩

end PatternAutomata.Graph
