import PatternAutomata.Proofs.Intact
import Mathlib.Data.List.Range

/-!
# What a history leaves behind

At any time of its history an automaton is consistent: the lists of a state tell which live
transitions enter and leave it, and what is deleted has no part in it. Whatever happens later, an
element keeps its number, a transition keeps its ends and its condition, and what is deleted stays
deleted (`replay_consistent`).
-/
namespace PatternAutomata.Graph

variable {ν : Type}

/-- The lists of the states agree with the live transitions, which join live states. -/
structure Consistent (g : Graph ν) : Prop where
  ends_live : ∀ (i : Nat) t, g.transitions[i]? = some t → t.deleted = false →
    g.IsLive t.source ∧ g.IsLive t.target
  outgoing_rising : ∀ (s : Nat) state, g.states[s]? = some state →
    state.outgoing.toList.Pairwise (· < ·)
  mem_outgoing : ∀ (s : Nat) state, g.states[s]? = some state → ∀ i, i ∈ state.outgoing.toList ↔
    ∃ t, g.transitions[i]? = some t ∧ t.deleted = false ∧ t.source = s
  incoming_rising : ∀ (s : Nat) state, g.states[s]? = some state →
    state.incoming.toList.Pairwise (· < ·)
  mem_incoming : ∀ (s : Nat) state, g.states[s]? = some state → ∀ i, i ∈ state.incoming.toList ↔
    ∃ t, g.transitions[i]? = some t ∧ t.deleted = false ∧ t.target = s
  deleted_bare : ∀ (s : Nat) state, g.states[s]? = some state → state.deleted = true →
    state.outgoing = #[] ∧ state.incoming = #[]
  initial_live : ∀ s, g.initial = some s → g.IsLive s

/-- Numbers of transitions are listed in the order of their creation, each once. -/
theorem pairwise_liveNumbers (g : Graph ν) (p : Transition ν → Bool) :
    (g.liveNumbers p).Pairwise (· < ·) := by
  have numbers : (g.transitions.toList.zipIdx.map Prod.snd).Pairwise (· < ·) := by
    rw [List.zipIdx_map_snd]
    exact List.pairwise_lt_range'
  exact numbers.sublist (List.filter_sublist.map _)

theorem Intact.consistent {g : Graph ν} (h : g.Intact) : g.Consistent where
  ends_live i t ht alive := ⟨h.source_live i t ht alive, h.target_live i t ht alive⟩
  outgoing_rising s state hs := h.outgoing_eq s state hs ▸ pairwise_liveNumbers g _
  mem_outgoing s state hs i := by simp [h.outgoing_eq s state hs, mem_liveNumbers]
  incoming_rising s state hs := h.incoming_eq s state hs ▸ pairwise_liveNumbers g _
  mem_incoming s state hs i := by simp [h.incoming_eq s state hs, mem_liveNumbers]
  deleted_bare s state hs deleted := by
    have gone : ¬ g.IsLive s := by
      rintro ⟨state', hs', alive⟩
      cases hs.symm.trans hs'
      exact absurd (deleted.symm.trans alive) (by decide)
    constructor
    · apply Array.toList_inj.mp
      rw [h.outgoing_eq s state hs]
      exact Intact.liveNumbers_eq_nil h.source_live gone
    · apply Array.toList_inj.mp
      rw [h.incoming_eq s state hs]
      exact Intact.liveNumbers_eq_nil h.target_live gone
  initial_live := h.initial_live

/-- The later automaton still has all elements of the earlier one. They keep their numbers, and
nothing that is deleted is alive again. -/
structure Continues (g g' : Graph ν) : Prop where
  tag : g'.tag = g.tag
  state : ∀ (s : Nat) state, g.states[s]? = some state →
    ∃ state', g'.states[s]? = some state' ∧ (state.deleted = true → state'.deleted = true)
  transition : ∀ (i : Nat) t, g.transitions[i]? = some t →
    ∃ t', g'.transitions[i]? = some t' ∧ t'.toEdge = t.toEdge ∧
      (t.deleted = true → t'.deleted = true)

namespace Continues

theorem refl (g : Graph ν) : g.Continues g :=
  ⟨rfl, fun _ state hs => ⟨state, hs, id⟩, fun _ t ht => ⟨t, ht, rfl, id⟩⟩

theorem trans {g g' g'' : Graph ν} (h : g.Continues g') (k : g'.Continues g'') :
    g.Continues g'' := by
  refine ⟨k.tag.trans h.tag, ?_, ?_⟩
  · intro s state hs
    obtain ⟨state', hs', gone⟩ := h.state s state hs
    obtain ⟨state'', hs'', gone'⟩ := k.state s state' hs'
    exact ⟨state'', hs'', gone' ∘ gone⟩
  · intro i t ht
    obtain ⟨t', ht', same, gone⟩ := h.transition i t ht
    obtain ⟨t'', ht'', same', gone'⟩ := k.transition i t' ht'
    exact ⟨t'', ht'', same'.trans same, gone' ∘ gone⟩

theorem addBareState (g : Graph ν) (accepting : Bool) : g.Continues (g.addBareState accepting) := by
  refine ⟨rfl, ?_, (refl g).transition⟩
  intro s state hs
  have lt := (Array.getElem?_eq_some_iff.mp hs).1
  exact ⟨state, by simp [Graph.addBareState, Array.getElem?_push, hs, Nat.ne_of_lt lt], id⟩

theorem connect (g : Graph ν) (e : Edge ν) : g.Continues (g.connect e) := by
  refine ⟨rfl, ?_, ?_⟩
  · intro s state hs
    rw [getElem?_connect, hs]
    exact ⟨_, rfl, fun gone => gone⟩
  · intro i t ht
    have lt := (Array.getElem?_eq_some_iff.mp ht).1
    exact ⟨t, by simp [Graph.connect, Array.getElem?_push, ht, Nat.ne_of_lt lt], rfl, id⟩

/-- A change of one state that brings nothing back to life. -/
theorem modify (g : Graph ν) (i : Nat) (f : State → State)
    (dead : ∀ s : State, s.deleted = true → (f s).deleted = true) :
    g.Continues { g with states := g.states.modify i f } := by
  refine ⟨rfl, ?_, (refl g).transition⟩
  intro s state hs
  by_cases e : i = s
  · exact ⟨f state, by simp [Array.getElem?_modify, e, hs], dead state⟩
  · exact ⟨state, by simp [Array.getElem?_modify, e, hs], id⟩

theorem unlink (g : Graph ν) (i : Nat) : g.Continues (g.unlink i) := by
  cases ht : g.transitions[i]? with
  | none => simpa [Graph.unlink, ht] using refl g
  | some t =>
    refine ⟨by simp [Graph.unlink, ht], ?_, ?_⟩
    · intro s state hs
      rw [getElem?_unlink g ht, hs]
      exact ⟨_, rfl, fun gone => gone⟩
    · intro j u hu
      rw [getElem?_transitions_unlink g ht]
      by_cases e : i = j
      · subst e
        cases ht.symm.trans hu
        exact ⟨_, if_pos rfl, rfl, fun _ => rfl⟩
      · exact ⟨u, by rw [if_neg e, hu], rfl, id⟩

theorem deleteTransition {g g' : Graph ν} {id : TransitionId}
    (h : g.deleteTransition id = .ok g') : g.Continues g' := by
  obtain ⟨_, -, -, rfl⟩ := deleteTransition_ok h
  exact unlink g id.index

theorem deleteTransitions {g g' : Graph ν} {ts : List Nat}
    (h : g.deleteTransitions ts = .ok g') : g.Continues g' := by
  induction ts generalizing g with
  | nil =>
    cases h
    exact refl _
  | cons t rest ih =>
    simp only [Graph.deleteTransitions, bind, Except.bind] at h
    split at h
    · exact ih h
    · split at h
      · cases h
      · next step => exact (deleteTransition step).trans (ih h)

theorem deleteState {g g' : Graph ν} {id : StateId} (h : g.deleteState id = .ok g') :
    g.Continues g' := by
  obtain ⟨s, rest, -, -, deleted, rfl⟩ := deleteState_ok h
  exact (deleteTransitions deleted).trans (modify rest _ _ fun _ _ => rfl)

theorem changes {g g' : Graph ν} (h : g.Changes g') : g.Continues g' := by
  cases h with
  | same => exact refl g
  | state => exact addBareState g false
  | edge e _ _ => exact connect g e
  | accepting s _ => exact modify g _ _ fun _ gone => gone
  | initial s _ => exact ⟨rfl, (refl g).state, (refl g).transition⟩
  | unlinked i => exact unlink g i
  | deleted h => exact deleteState h

theorem replay [DecidableEq ν] (g : Graph ν) (es : List (Edit ν)) : g.Continues (g.replay es) := by
  induction es generalizing g with
  | nil => exact refl g
  | cons e es ih =>
    rw [Graph.replay]
    split
    · next done => exact (changes (changes_of_edit done)).trans (ih _)
    · exact ih g

end Continues

/-- The names that are given out are the places of the elements they name. -/
structure NamesPlaces [DecidableEq ν] (g : Graph ν) : Prop where
  state : ∀ g' id, g.addState = (g', id) →
    id = ⟨g.tag, g.states.size⟩ ∧ g'.state? id = some (State.bare false)
  transition : ∀ source target c g' id, g.addTransition source target c = .ok (g', id) →
    id = ⟨g.tag, g.transitions.size⟩ ∧
      g'.transition? id = some ⟨⟨source.index, target.index, c⟩, false⟩
  once : ∀ source target c g' id, g.addTransitionOnce source target c = .ok (g', id) →
    g'.transition? id = some ⟨⟨source.index, target.index, c⟩, false⟩

theorem transition?_connect (g : Graph ν) (e : Edge ν) :
    (g.connect e).transition? ⟨g.tag, g.transitions.size⟩ = some ⟨e, false⟩ := by
  simp [transition?, connect]

theorem Intact.namesPlaces [DecidableEq ν] {g : Graph ν} (h : g.Intact) : g.NamesPlaces := by
  have added {source target : StateId} {c : Condition ν} {g' : Graph ν} {id : TransitionId}
      (h : g.addTransition source target c = .ok (g', id)) :
      id = ⟨g.tag, g.transitions.size⟩ ∧
        g'.transition? id = some ⟨⟨source.index, target.index, c⟩, false⟩ := by
    obtain ⟨-, -, rfl, rfl⟩ := addTransition_ok h
    exact ⟨rfl, transition?_connect g _⟩
  refine ⟨?_, fun _ _ _ _ _ h => added h, ?_⟩
  · rintro g' id ⟨⟩
    exact ⟨rfl, (if_pos rfl).trans Array.getElem?_push_size⟩
  · intro source target c g' id honce
    obtain ⟨s, i, hs, hi, rfl, rfl⟩ | new := addTransitionOnce_ok honce
    · have listed := Array.mem_of_find?_eq_some hi
      have same := Array.find?_some hi
      obtain ⟨t, ht, alive, leaves⟩ := (h.consistent.mem_outgoing _ s (liveState_ok hs).2 i).mp
        (Array.mem_toList_iff.mpr listed)
      simp only [ht, Option.any_some, Bool.and_eq_true, decide_eq_true_eq] at same
      obtain ⟨⟨-, enters⟩, condition⟩ := same
      rw [transition?, if_pos rfl, ht, ← leaves, ← enters, ← condition, ← alive]
    · exact (added new).2

/-- Deleting transitions that are there does not fail. -/
theorem exists_deleteTransitions {g : Graph ν} {ts : List Nat}
    (there : ∀ t ∈ ts, t < g.transitions.size) : ∃ g', g.deleteTransitions ts = .ok g' := by
  induction ts generalizing g with
  | nil => exact ⟨g, rfl⟩
  | cons t rest ih =>
    have rest_there := fun u hu => there u (List.mem_cons_of_mem t hu)
    rw [deleteTransitions]
    split
    · exact ih rest_there
    · next alive =>
      have lt := there t List.mem_cons_self
      have step : g.deleteTransition ⟨g.tag, t⟩ = .ok (g.unlink t) := by
        simpa [deleteTransition, transition?, lt] using alive
      rw [step]
      refine ih (g := g.unlink t) fun u hu => ?_
      have lt' := rest_there u hu
      simpa [unlink, lt] using lt'

/-- After any history of changes, with changes that fail and names of any kind among them, an
automaton is consistent, it gives out names that tell the places of what they name, and a state
does not fail to be deleted halfway. What happens later continues it. -/
theorem replay_consistent [DecidableEq ν] (tag : Nat) (es fs : List (Edit ν)) :
    ((empty tag).replay es).Consistent ∧ ((empty tag).replay es).NamesPlaces ∧
      (∀ (s : Nat) state, ((empty tag).replay es).states[s]? = some state → ∃ g',
        ((empty tag).replay es).deleteTransitions
          (state.incoming ++ state.outgoing).toList = .ok g') ∧
      ((empty tag).replay es).Continues ((empty tag).replay (es ++ fs)) := by
  have intact : ((empty tag).replay es).Intact := (Intact.empty tag).replay es
  refine ⟨intact.consistent, intact.namesPlaces, ?_, ?_⟩
  · intro s state hs
    refine exists_deleteTransitions fun i hi => ?_
    rw [Array.toList_append, List.mem_append, intact.consistent.mem_incoming s state hs,
      intact.consistent.mem_outgoing s state hs] at hi
    obtain ⟨t, ht, -⟩ | ⟨t, ht, -⟩ := hi
    all_goals exact (Array.getElem?_eq_some_iff.mp ht).1
  · rw [replay_append]
    exact .replay _ fs

end PatternAutomata.Graph
