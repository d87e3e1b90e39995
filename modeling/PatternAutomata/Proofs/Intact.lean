import PatternAutomata.Automaton.History
import Mathlib.Data.List.Basic
import Mathlib.Data.List.Induction

/-!
# The links of an automaton

A transition is recorded in three places: in its own place, at its source and at its target. In an
intact automaton the three agree, live transitions join live states, and the initial state is live.
Every history of changes leaves an intact automaton (`HasHistory.intact`).
-/
namespace PatternAutomata.Graph

variable {ν : Type}

/-- The state is there and not deleted. -/
def IsLive (g : Graph ν) (s : Nat) : Prop :=
  ∃ state, g.states[s]? = some state ∧ state.deleted = false

theorem IsLive.lt {g : Graph ν} {s : Nat} (h : g.IsLive s) : s < g.states.size := by
  obtain ⟨state, hs, _⟩ := h
  exact (Array.getElem?_eq_some_iff.mp hs).1

theorem mem_liveStates {g : Graph ν} {s : Nat} : s ∈ g.liveStates ↔ g.IsLive s := by
  simp only [liveStates, List.mem_filter, List.mem_range, IsLive, Option.any_eq_true,
    Bool.not_eq_true']
  exact ⟨fun h => h.2, fun h => ⟨IsLive.lt h, h⟩⟩

theorem mem_liveTransitions_iff {g : Graph ν} {t : Transition ν} {i : Nat} :
    (t, i) ∈ g.liveTransitions ↔ g.transitions[i]? = some t ∧ t.deleted = false := by
  simp [liveTransitions, List.mem_zipIdx_iff_getElem?]

/-- The numbers of the live transitions that pass a test, in the order of their creation. -/
def liveNumbers (g : Graph ν) (p : Transition ν → Bool) : List Nat :=
  (g.transitions.toList.zipIdx.filter fun t => !t.1.deleted && p t.1).map Prod.snd

theorem mem_liveNumbers {g : Graph ν} {p : Transition ν → Bool} {i : Nat} :
    i ∈ g.liveNumbers p ↔ ∃ t, g.transitions[i]? = some t ∧ t.deleted = false ∧ p t = true := by
  simp [liveNumbers, List.mem_zipIdx_iff_getElem?]

theorem filterMap_numbers {α : Type} {l : List α} (p : α → Bool) :
    ((l.zipIdx.filter fun x => p x.1).map Prod.snd).filterMap (l[·]?) = l.filter p := by
  induction l using List.reverseRecOn with
  | nil => rfl
  | append_singleton l a ih =>
    have old : ((l.zipIdx.filter fun x => p x.1).map Prod.snd).filterMap ((l ++ [a])[·]?) =
        ((l.zipIdx.filter fun x => p x.1).map Prod.snd).filterMap (l[·]?) := by
      refine List.filterMap_congr fun i hi => ?_
      obtain ⟨⟨b, _⟩, hb, rfl⟩ := List.mem_map.mp hi
      have hlt := (List.getElem?_eq_some_iff.mp
        (List.mem_zipIdx_iff_getElem?.mp (List.mem_filter.mp hb).1)).1
      exact List.getElem?_append_left hlt
    rw [List.zipIdx_append, List.filter_append, List.map_append, List.filterMap_append, old, ih,
      List.filter_append]
    by_cases h : p a <;> simp [h]

theorem lookup_liveNumbers (g : Graph ν) (p : Transition ν → Bool) :
    (g.liveNumbers p).filterMap (g.transitions[·]?) =
      g.transitions.toList.filter fun t => !t.deleted && p t := by
  simpa [liveNumbers] using filterMap_numbers (l := g.transitions.toList) fun t => !t.deleted && p t

/-- The records of an automaton agree with each other. -/
structure Intact (g : Graph ν) : Prop where
  outgoing_eq : ∀ (s : Nat) state, g.states[s]? = some state →
    state.outgoing.toList = g.liveNumbers fun t => t.source == s
  incoming_eq : ∀ (s : Nat) state, g.states[s]? = some state →
    state.incoming.toList = g.liveNumbers fun t => t.target == s
  source_live : ∀ (i : Nat) t, g.transitions[i]? = some t → t.deleted = false → g.IsLive t.source
  target_live : ∀ (i : Nat) t, g.transitions[i]? = some t → t.deleted = false → g.IsLive t.target
  initial_live : ∀ s, g.initial = some s → g.IsLive s

namespace Intact

/-- No live transition has an end in a state that is not there. -/
theorem liveNumbers_eq_nil {g : Graph ν} {f : Transition ν → Nat} {s : Nat}
    (h : ∀ (i : Nat) t, g.transitions[i]? = some t → t.deleted = false → g.IsLive (f t))
    (hs : ¬ g.IsLive s) : g.liveNumbers (fun t => f t == s) = [] := by
  refine List.eq_nil_iff_forall_not_mem.mpr fun i hi => ?_
  obtain ⟨t, ht, alive, e⟩ := mem_liveNumbers.mp hi
  exact hs (beq_iff_eq.mp e ▸ h i t ht alive)

theorem outgoing {g : Graph ν} (h : g.Intact) (s : Nat) :
    g.outgoing s = g.transitions.toList.filter fun t => !t.deleted && t.source == s := by
  rw [← lookup_liveNumbers]
  unfold Graph.outgoing
  split
  · next state hs => rw [h.outgoing_eq s state hs]
  · next hs =>
    have gone : ¬ g.IsLive s := fun ⟨state, hstate, _⟩ => by simp [hs] at hstate
    rw [liveNumbers_eq_nil h.source_live gone]
    rfl

theorem incoming {g : Graph ν} (h : g.Intact) (s : Nat) :
    g.incoming s = g.transitions.toList.filter fun t => !t.deleted && t.target == s := by
  rw [← lookup_liveNumbers]
  unfold Graph.incoming
  split
  · next state hs => rw [h.incoming_eq s state hs]
  · next hs =>
    have gone : ¬ g.IsLive s := fun ⟨state, hstate, _⟩ => by simp [hs] at hstate
    rw [liveNumbers_eq_nil h.target_live gone]
    rfl

theorem mem_outgoing {g : Graph ν} (h : g.Intact) {s : Nat} {t : Transition ν} :
    t ∈ g.outgoing s ↔ t ∈ g.transitions.toList ∧ t.deleted = false ∧ t.source = s := by
  simp [h.outgoing]

theorem mem_incoming {g : Graph ν} (h : g.Intact) {s : Nat} {t : Transition ν} :
    t ∈ g.incoming s ↔ t ∈ g.transitions.toList ∧ t.deleted = false ∧ t.target = s := by
  simp [h.incoming]

theorem isLive_target {g : Graph ν} (h : g.Intact) {s : Nat} {t : Transition ν}
    (ht : t ∈ g.outgoing s) : g.IsLive t.target := by
  obtain ⟨ht, alive, _⟩ := h.mem_outgoing.mp ht
  obtain ⟨i, hi⟩ := List.mem_iff_getElem?.mp ht
  exact h.target_live i t (by simpa using hi) alive

theorem isLive_source {g : Graph ν} (h : g.Intact) {s : Nat} {t : Transition ν}
    (ht : t ∈ g.outgoing s) : g.IsLive s := by
  obtain ⟨member, alive, rfl⟩ := h.mem_outgoing.mp ht
  obtain ⟨i, hi⟩ := List.mem_iff_getElem?.mp member
  exact h.source_live i t (by simpa using hi) alive

theorem mem_liveTransitions {g : Graph ν} (h : g.Intact) {s : Nat} {t : Transition ν}
    (ht : t ∈ g.outgoing s) : ∃ i, (t, i) ∈ g.liveTransitions := by
  obtain ⟨ht, alive, _⟩ := h.mem_outgoing.mp ht
  obtain ⟨i, hi⟩ := List.mem_iff_getElem?.mp ht
  exact ⟨i, mem_liveTransitions_iff.mpr ⟨by simpa using hi, alive⟩⟩

theorem outgoing_of_live {g : Graph ν} (h : g.Intact) {t : Transition ν} {i : Nat}
    (ht : (t, i) ∈ g.liveTransitions) : t ∈ g.outgoing t.source := by
  obtain ⟨found, alive⟩ := mem_liveTransitions_iff.mp ht
  exact h.mem_outgoing.mpr ⟨by simpa using Array.mem_of_getElem? found, alive, rfl⟩

theorem empty (tag : Nat) : (Graph.empty tag : Graph ν).Intact := by
  constructor <;> simp [Graph.empty]

theorem addBareState {g : Graph ν} (h : g.Intact) (accepting : Bool) :
    (g.addBareState accepting).Intact := by
  have live {s : Nat} (hs : g.IsLive s) : (g.addBareState accepting).IsLive s := by
    obtain ⟨state, hstate, alive⟩ := hs
    have := (Array.getElem?_eq_some_iff.mp hstate).1
    exact ⟨state, by simp [Graph.addBareState, Array.getElem?_push, hstate, Nat.ne_of_lt this],
      alive⟩
  have fresh : ¬ g.IsLive g.states.size := fun hs => Nat.lt_irrefl _ hs.lt
  refine ⟨fun s state hs => ?_, fun s state hs => ?_,
    fun i t ht alive => live (h.source_live i t ht alive),
    fun i t ht alive => live (h.target_live i t ht alive), fun s hs => live (h.initial_live s hs)⟩
  · simp only [Graph.addBareState, Array.getElem?_push] at hs
    split at hs
    · next e =>
      cases hs
      exact e ▸ (liveNumbers_eq_nil h.source_live fresh).symm
    · exact h.outgoing_eq s state hs
  · simp only [Graph.addBareState, Array.getElem?_push] at hs
    split at hs
    · next e =>
      cases hs
      exact e ▸ (liveNumbers_eq_nil h.target_live fresh).symm
    · exact h.incoming_eq s state hs

/-- A changed state keeps its links if the change does. -/
theorem links_of_modify {states : Array State} {i s : Nat} {f : State → State} {state : State}
    (hout : ∀ s, (f s).outgoing = s.outgoing) (hin : ∀ s, (f s).incoming = s.incoming)
    (hs : (states.modify i f)[s]? = some state) :
    ∃ old, states[s]? = some old ∧ state.outgoing = old.outgoing ∧
      state.incoming = old.incoming := by
  rw [Array.getElem?_modify] at hs
  split at hs
  · obtain ⟨old, hold, rfl⟩ := Option.map_eq_some_iff.mp hs
    exact ⟨old, hold, hout old, hin old⟩
  · exact ⟨state, hs, rfl, rfl⟩

/-- A change of a state that keeps its links and keeps alive what has to be. -/
theorem modify {g : Graph ν} (h : g.Intact) (i : Nat) (f : State → State)
    (hout : ∀ s, (f s).outgoing = s.outgoing) (hin : ∀ s, (f s).incoming = s.incoming)
    (hdel : (∀ s, (f s).deleted = s.deleted) ∨ g.initial ≠ some i ∧
      ∀ (j : Nat) t, g.transitions[j]? = some t → t.deleted = false →
        t.source ≠ i ∧ t.target ≠ i) :
    { g with states := g.states.modify i f }.Intact := by
  have live {s : Nat} (hs : g.IsLive s) (ne : (∀ s, (f s).deleted = s.deleted) ∨ s ≠ i) :
      { g with states := g.states.modify i f }.IsLive s := by
    obtain ⟨state, hstate, alive⟩ := hs
    by_cases e : i = s
    · exact ⟨f state, by simp [Array.getElem?_modify, e, hstate],
        by rw [ne.resolve_right (fun k => k e.symm), alive]⟩
    · exact ⟨state, by simp [Array.getElem?_modify, e, hstate], alive⟩
  refine ⟨fun s state hs => ?_, fun s state hs => ?_,
    fun j t ht alive =>
      live (h.source_live j t ht alive) (hdel.imp_right fun k => (k.2 j t ht alive).1),
    fun j t ht alive =>
      live (h.target_live j t ht alive) (hdel.imp_right fun k => (k.2 j t ht alive).2),
    fun s hs => live (h.initial_live s hs) (hdel.imp_right fun k e => k.1 (e ▸ hs))⟩
  · obtain ⟨old, hold, e, _⟩ := links_of_modify hout hin hs
    exact e ▸ h.outgoing_eq s old hold
  · obtain ⟨old, hold, _, e⟩ := links_of_modify hout hin hs
    exact e ▸ h.incoming_eq s old hold

theorem setInitial {g : Graph ν} (h : g.Intact) {s : Nat} (hs : g.IsLive s) :
    { g with initial := some s }.Intact :=
  ⟨h.outgoing_eq, h.incoming_eq, h.source_live, h.target_live,
    fun _ e => Option.some.inj e ▸ hs⟩

end Intact

theorem getElem?_connect (g : Graph ν) (e : Edge ν) (s : Nat) :
    (g.connect e).states[s]? = g.states[s]?.map fun state =>
      { state with
        outgoing := if e.source = s then state.outgoing.push g.transitions.size else state.outgoing
        incoming :=
          if e.target = s then state.incoming.push g.transitions.size else state.incoming } := by
  simp only [connect, Array.getElem?_modify]
  by_cases hs : e.source = s <;> by_cases ht : e.target = s <;>
    simp [hs, ht, Option.map_map, Function.comp_def]

theorem liveNumbers_connect (g : Graph ν) (e : Edge ν) (p : Transition ν → Bool) :
    (g.connect e).liveNumbers p =
      g.liveNumbers p ++ if p ⟨e, false⟩ then [g.transitions.size] else [] := by
  by_cases h : p ⟨e, false⟩ <;> simp [liveNumbers, connect, List.zipIdx_append, h]

theorem isLive_connect {g : Graph ν} {e : Edge ν} {s : Nat} :
    (g.connect e).IsLive s ↔ g.IsLive s := by
  simp only [IsLive, getElem?_connect, Option.map_eq_some_iff]
  constructor
  · rintro ⟨_, ⟨state, hs, rfl⟩, alive⟩
    exact ⟨state, hs, alive⟩
  · rintro ⟨state, hs, alive⟩
    exact ⟨_, ⟨state, hs, rfl⟩, alive⟩

theorem Intact.connect {g : Graph ν} (h : g.Intact) {e : Edge ν} (hs : g.IsLive e.source)
    (ht : g.IsLive e.target) : (g.connect e).Intact := by
  have ends (f : Transition ν → Nat) (hf : g.IsLive (f ⟨e, false⟩))
      (hall : ∀ (i : Nat) t, g.transitions[i]? = some t → t.deleted = false → g.IsLive (f t))
      (i : Nat) (t : Transition ν) (ht : (g.connect e).transitions[i]? = some t)
      (alive : t.deleted = false) : (g.connect e).IsLive (f t) := by
    simp only [Graph.connect, Array.getElem?_push] at ht
    split at ht
    · cases ht
      exact isLive_connect.mpr hf
    · exact isLive_connect.mpr (hall i t ht alive)
  refine ⟨fun s state hstate => ?_, fun s state hstate => ?_,
    ends (fun t => t.source) hs h.source_live, ends (fun t => t.target) ht h.target_live,
    fun s e => isLive_connect.mpr (h.initial_live s e)⟩
  · rw [getElem?_connect] at hstate
    obtain ⟨old, hold, rfl⟩ := Option.map_eq_some_iff.mp hstate
    rw [liveNumbers_connect, ← h.outgoing_eq s old hold]
    by_cases e : e.source = s <;> simp [e]
  · rw [getElem?_connect] at hstate
    obtain ⟨old, hold, rfl⟩ := Option.map_eq_some_iff.mp hstate
    rw [liveNumbers_connect, ← h.incoming_eq s old hold]
    by_cases e : e.target = s <;> simp [e]

theorem getElem?_unlink (g : Graph ν) {i : Nat} {t : Transition ν} (ht : g.transitions[i]? = some t)
    (s : Nat) :
    (g.unlink i).states[s]? = g.states[s]?.map fun state =>
      { state with
        outgoing := if t.source = s then state.outgoing.filter (· ≠ i) else state.outgoing
        incoming := if t.target = s then state.incoming.filter (· ≠ i) else state.incoming } := by
  simp only [unlink, ht, Array.getElem?_modify]
  by_cases hs : t.source = s <;> by_cases ht : t.target = s <;>
    simp [hs, ht, Option.map_map, Function.comp_def]

theorem getElem?_transitions_unlink (g : Graph ν) {i : Nat} {t : Transition ν}
    (ht : g.transitions[i]? = some t) (j : Nat) :
    (g.unlink i).transitions[j]? =
      if i = j then some { t with deleted := true } else g.transitions[j]? := by
  simp only [unlink, ht, Array.getElem?_modify]
  split
  · next e => simp [← e, ht]
  · rfl

theorem liveNumbers_unlink (g : Graph ν) {i : Nat} {t : Transition ν}
    (ht : g.transitions[i]? = some t) (p : Transition ν → Bool) :
    (g.unlink i).liveNumbers p = (g.liveNumbers p).filter (· ≠ i) := by
  have pairs : (g.unlink i).transitions.toList.zipIdx =
      g.transitions.toList.zipIdx.map fun x =>
        (if i = x.2 then { x.1 with deleted := true } else x.1, x.2) := by
    refine List.ext_getElem? fun j => ?_
    simp only [List.getElem?_zipIdx, List.getElem?_map, Array.getElem?_toList,
      getElem?_transitions_unlink g ht, Option.map_map]
    by_cases e : i = j
    · subst e
      simp [ht]
    · simp [e, Function.comp_def]
  rw [liveNumbers, liveNumbers, pairs, List.filter_map, List.map_map, List.filter_map,
    List.filter_filter]
  congr 1
  refine List.filter_congr fun x _ => ?_
  by_cases e : x.2 = i
  · simp [e]
  · simp [e, Ne.symm e]

theorem isLive_unlink {g : Graph ν} {i s : Nat} : (g.unlink i).IsLive s ↔ g.IsLive s := by
  cases ht : g.transitions[i]? with
  | none => simp [unlink, ht]
  | some t =>
    simp only [IsLive, getElem?_unlink g ht, Option.map_eq_some_iff]
    constructor
    · rintro ⟨_, ⟨state, hs, rfl⟩, alive⟩
      exact ⟨state, hs, alive⟩
    · rintro ⟨state, hs, alive⟩
      exact ⟨_, ⟨state, hs, rfl⟩, alive⟩

namespace Intact

theorem unlink {g : Graph ν} (h : g.Intact) (i : Nat) : (g.unlink i).Intact := by
  cases ht : g.transitions[i]? with
  | none => simpa [Graph.unlink, ht] using h
  | some t =>
    have elsewhere (f : Transition ν → Nat) (s : Nat) (e : f t ≠ s) :
        (g.liveNumbers fun t => f t == s).filter (· ≠ i) = g.liveNumbers fun t => f t == s := by
      refine List.filter_eq_self.mpr fun j hj => ?_
      obtain ⟨u, hu, _, hs⟩ := mem_liveNumbers.mp hj
      have : j ≠ i := fun same => e (by
        rw [same, ht] at hu
        exact Option.some.inj hu ▸ beq_iff_eq.mp hs)
      simpa using this
    have ends (f : Transition ν → Nat)
        (hf : ∀ (j : Nat) u, g.transitions[j]? = some u → u.deleted = false → g.IsLive (f u))
        (j : Nat) (u : Transition ν) (hu : (g.unlink i).transitions[j]? = some u)
        (alive : u.deleted = false) : (g.unlink i).IsLive (f u) := by
      rw [getElem?_transitions_unlink g ht] at hu
      split at hu
      · cases hu
        cases alive
      · exact isLive_unlink.mpr (hf j u hu alive)
    refine ⟨fun s state hs => ?_, fun s state hs => ?_, ends (fun t => t.source) h.source_live,
      ends (fun t => t.target) h.target_live, fun s hs => ?_⟩
    · rw [getElem?_unlink g ht] at hs
      obtain ⟨old, hold, rfl⟩ := Option.map_eq_some_iff.mp hs
      rw [liveNumbers_unlink g ht, ← h.outgoing_eq s old hold]
      by_cases e : t.source = s
      · simp [e]
      · simpa [e, h.outgoing_eq s old hold] using (elsewhere (fun t => t.source) s e).symm
    · rw [getElem?_unlink g ht] at hs
      obtain ⟨old, hold, rfl⟩ := Option.map_eq_some_iff.mp hs
      rw [liveNumbers_unlink g ht, ← h.incoming_eq s old hold]
      by_cases e : t.target = s
      · simp [e]
      · simpa [e, h.incoming_eq s old hold] using (elsewhere (fun t => t.target) s e).symm
    · refine isLive_unlink.mpr (h.initial_live s ?_)
      simpa [Graph.unlink, ht] using hs

end Intact

/-- Deleting transitions keeps the states, and leaves none of the given transitions alive. -/
theorem deleteTransitions_spec {g g' : Graph ν} {ts : List Nat}
    (h : g.deleteTransitions ts = .ok g') :
    (g.Intact → g'.Intact) ∧ g'.initial = g.initial ∧ (∀ s, g'.IsLive s ↔ g.IsLive s) ∧
      ∀ (i : Nat) t, g'.transitions[i]? = some t → t.deleted = false →
        g.transitions[i]? = some t ∧ i ∉ ts := by
  induction ts generalizing g with
  | nil =>
    cases h
    exact ⟨id, rfl, fun _ => Iff.rfl, fun i t ht _ => ⟨ht, List.not_mem_nil⟩⟩
  | cons j rest ih =>
    rw [deleteTransitions] at h
    split at h
    · next gone =>
      obtain ⟨intact, initial, live, left⟩ := ih h
      refine ⟨intact, initial, live, fun i t ht alive => ?_⟩
      obtain ⟨old, other⟩ := left i t ht alive
      have : i ≠ j := fun e => by simp [← e, old, alive] at gone
      exact ⟨old, List.not_mem_cons_of_ne_of_not_mem this other⟩
    · next alive =>
      obtain ⟨u, hu⟩ : ∃ u, g.transitions[j]? = some u := by
        cases hj : g.transitions[j]? with
        | some u => exact ⟨u, rfl⟩
        | none =>
          rw [deleteTransition, transition?, if_pos rfl, hj] at h
          cases h
      have hu' : u.deleted = false := by simpa [hu] using alive
      have step : g.deleteTransition ⟨g.tag, j⟩ = .ok (g.unlink j) := by
        simp [deleteTransition, transition?, hu, hu']
      rw [step] at h
      obtain ⟨intact, initial, live, left⟩ := ih h
      refine ⟨fun h => intact (h.unlink j), ?_, fun s => (live s).trans isLive_unlink,
        fun i t ht alive => ?_⟩
      · rw [initial, unlink, hu]
      · obtain ⟨old, other⟩ := left i t ht alive
        rw [getElem?_transitions_unlink g hu] at old
        split at old
        · cases old
          cases alive
        · next e => exact ⟨old, List.not_mem_cons_of_ne_of_not_mem (Ne.symm e) other⟩

theorem liveState_ok {g : Graph ν} {id : StateId} {s : State} (h : g.liveState id = .ok s) :
    g.IsLive id.index ∧ g.states[id.index]? = some s := by
  unfold liveState ownState state? at h
  split at h
  · next s' hs =>
    split at hs
    · simp only [bind, Except.bind] at h
      split at h
      · cases h
      · next alive =>
        cases h
        exact ⟨⟨s, hs, by simpa using alive⟩, hs⟩
    · cases hs
  · cases h

theorem addTransition_ok {g g' : Graph ν} {source target : StateId} {c : Condition ν}
    {id : TransitionId} (h : g.addTransition source target c = .ok (g', id)) :
    g.IsLive source.index ∧ g.IsLive target.index ∧
      g' = g.connect ⟨source.index, target.index, c⟩ ∧ id = ⟨g.tag, g.transitions.size⟩ := by
  unfold addTransition at h
  cases hs : g.liveState source with
  | error _ => simp [hs, bind, Except.bind] at h
  | ok s =>
    cases ht : g.liveState target with
    | error _ => simp [hs, ht, bind, Except.bind] at h
    | ok _ =>
      simp only [hs, ht, bind, Except.bind, pure, Except.pure] at h
      cases h
      exact ⟨(liveState_ok hs).1, (liveState_ok ht).1, rfl, rfl⟩

theorem deleteTransition_ok {g g' : Graph ν} {id : TransitionId}
    (h : g.deleteTransition id = .ok g') :
    ∃ t, g.transition? id = some t ∧ t.deleted = false ∧ g' = g.unlink id.index := by
  unfold deleteTransition at h
  split at h
  · cases h
  · next t ht =>
    split at h
    · cases h
    · next alive =>
      cases h
      exact ⟨t, ht, by simpa using alive, rfl⟩

/-- What a deleted state leaves behind. -/
theorem deleteState_ok {g g' : Graph ν} {id : StateId} (h : g.deleteState id = .ok g') :
    ∃ s rest, g.states[id.index]? = some s ∧ g.initial ≠ some id.index ∧
      g.deleteTransitions (s.incoming ++ s.outgoing).toList = .ok rest ∧
      g' = { rest with
        states := rest.states.modify id.index fun s => { s with deleted := true } } := by
  unfold deleteState ownState state? at h
  split at h
  · next s hs =>
    split at hs
    · simp only [bind, Except.bind] at h
      split at h
      · cases h
      · split at h
        · cases h
        · next other =>
          split at h
          · cases h
          · next rest hrest =>
            cases h
            exact ⟨s, rest, hs, other, hrest, rfl⟩
    · cases hs
  · cases h

theorem Intact.deleteState {g g' : Graph ν} {id : StateId} (h : g.Intact)
    (e : g.deleteState id = .ok g') : g'.Intact := by
  obtain ⟨s, rest, hs, other, hrest, rfl⟩ := deleteState_ok e
  obtain ⟨intact, initial, _, left⟩ := deleteTransitions_spec hrest
  refine (intact h).modify _ _ (fun _ => rfl) (fun _ => rfl)
    (.inr ⟨initial ▸ other, fun j t ht alive => ?_⟩)
  obtain ⟨old, gone⟩ := left j t ht alive
  simp only [Array.toList_append, List.mem_append, h.outgoing_eq _ s hs, h.incoming_eq _ s hs,
    mem_liveNumbers, not_or, not_exists] at gone
  exact ⟨fun same => gone.2 t ⟨old, alive, beq_iff_eq.mpr same⟩,
    fun same => gone.1 t ⟨old, alive, beq_iff_eq.mpr same⟩⟩

/-- What a change that succeeds comes to. -/
inductive Changes (g : Graph ν) : Graph ν → Prop where
  | same : Changes g g
  | state : Changes g (g.addBareState false)
  | edge (e : Edge ν) : g.IsLive e.source → g.IsLive e.target → Changes g (g.connect e)
  | accepting (s : Nat) : g.IsLive s →
      Changes g { g with states := g.states.modify s fun s => { s with accepting := true } }
  | initial (s : Nat) : g.IsLive s → Changes g { g with initial := some s }
  | unlinked (i : Nat) : Changes g (g.unlink i)
  | deleted {id : StateId} {g' : Graph ν} : g.deleteState id = .ok g' → Changes g g'

theorem changes_of_addTransition {g g' : Graph ν} {source target : StateId} {c : Condition ν}
    {id : TransitionId} (h : g.addTransition source target c = .ok (g', id)) : g.Changes g' := by
  obtain ⟨hs, ht, rfl, -⟩ := addTransition_ok h
  exact .edge _ hs ht

theorem Intact.changes {g g' : Graph ν} (h : g.Intact) (k : g.Changes g') : g'.Intact := by
  cases k with
  | same => exact h
  | state => exact h.addBareState false
  | edge e hs ht => exact h.connect hs ht
  | accepting s _ => exact h.modify _ _ (fun _ => rfl) (fun _ => rfl) (.inl fun _ => rfl)
  | initial s hs => exact h.setInitial hs
  | unlinked i => exact h.unlink i
  | deleted k => exact h.deleteState k

section
variable [DecidableEq ν]

theorem addTransitionOnce_ok {g g' : Graph ν} {source target : StateId} {c : Condition ν}
    {id : TransitionId} (h : g.addTransitionOnce source target c = .ok (g', id)) :
    (∃ s i, g.liveState source = .ok s ∧ g.edgeAmong? target c s.outgoing = some i ∧ g' = g ∧
      id = ⟨g.tag, i⟩) ∨ g.addTransition source target c = .ok (g', id) := by
  simp only [addTransitionOnce, bind, Except.bind] at h
  split at h
  · cases h
  · next s hs =>
    split at h
    · next i hi =>
      cases h
      exact .inl ⟨s, i, hs, hi, rfl, rfl⟩
    · exact .inr h

theorem changes_of_edit {g g' : Graph ν} {e : Edit ν} (h : g.edit e = .ok g') : g.Changes g' := by
  cases e with
  | addState =>
    cases h
    exact .state
  | addTransition source target c =>
    simp only [edit, bind, Except.bind] at h
    split at h
    · cases h
    · next added =>
      cases h
      exact changes_of_addTransition added
  | addTransitionOnce source target c =>
    simp only [edit, bind, Except.bind] at h
    split at h
    · cases h
    · next added =>
      cases h
      obtain ⟨_, _, -, -, same, -⟩ | new := addTransitionOnce_ok added
      · exact same ▸ .same
      · exact changes_of_addTransition new
  | setAccepting s =>
    simp only [edit, setAccepting, bind, Except.bind] at h
    split at h
    · cases h
    · next hs =>
      cases h
      exact .accepting _ (liveState_ok hs).1
  | setInitial s =>
    simp only [edit, setInitial, bind, Except.bind] at h
    split at h
    · cases h
    · next hs =>
      cases h
      exact .initial _ (liveState_ok hs).1
  | deleteTransition t =>
    obtain ⟨_, -, -, rfl⟩ := deleteTransition_ok h
    exact .unlinked _
  | deleteState s => exact .deleted h

theorem Intact.replay {g : Graph ν} (h : g.Intact) (es : List (Edit ν)) : (g.replay es).Intact := by
  induction es generalizing g with
  | nil => exact h
  | cons e es ih =>
    rw [Graph.replay]
    split
    · next k => exact ih (h.changes (changes_of_edit k))
    · exact ih h

/-- The automaton is the outcome of a history of changes. -/
def HasHistory (g : Graph ν) : Prop := ∃ tag es, g = (Graph.empty tag).replay es

theorem HasHistory.intact {g : Graph ν} (h : g.HasHistory) : g.Intact := by
  obtain ⟨tag, es, rfl⟩ := h
  exact (Intact.empty tag).replay es

theorem HasHistory.edit {g g' : Graph ν} {e : Edit ν} (h : g.HasHistory)
    (k : g.edit e = .ok g') : g'.HasHistory := by
  obtain ⟨tag, es, rfl⟩ := h
  refine ⟨tag, es ++ [e], ?_⟩
  rw [replay_append, Graph.replay, k]
  rfl

end

end PatternAutomata.Graph
