import PatternAutomata.Proofs.Built
import PatternAutomata.Proofs.Numbering

/-!
# Automata made by additions

An automaton is made by adding states and edges to nothing and by telling which states accept and
where it starts. Each of these is a change that can fail, since it names states. As long as only
states are named that have been added before, none of them fails, and the automaton is the one that
is built from what has been added (`perform_of_makes`).
-/
namespace PatternAutomata

theorem State.eq_of_parts {s t : State}
    (flag : (s.accepting, s.deleted) = (t.accepting, t.deleted))
    (incoming : s.incoming.toList = t.incoming.toList)
    (outgoing : s.outgoing.toList = t.outgoing.toList) : s = t := by
  cases s
  cases t
  simp_all [Array.toList_inj]

namespace Graph

section
variable {ν : Type} {g A B : Graph ν}

/-! ### What tells automata apart -/

/-- The states, reduced to whether they accept and whether they are deleted. -/
def flags (g : Graph ν) : List (Bool × Bool) :=
  g.states.toList.map fun s => (s.accepting, s.deleted)

theorem flags_addBareState (g : Graph ν) (accepting : Bool) :
    (g.addBareState accepting).flags = g.flags ++ [(accepting, false)] := by
  simp [flags, addBareState, State.bare]

theorem flags_connect (g : Graph ν) (e : Edge ν) : (g.connect e).flags = g.flags := by
  refine List.ext_getElem? fun s => ?_
  simp only [flags, List.getElem?_map, Array.getElem?_toList, getElem?_connect, Option.map_map]
  rfl

theorem length_flags (g : Graph ν) : g.flags.length = g.states.size := by simp [flags]

theorem getElem?_flags (g : Graph ν) (s : Nat) :
    g.flags[s]? = g.states[s]?.map fun s => (s.accepting, s.deleted) := by
  rw [flags, List.getElem?_map, Array.getElem?_toList]

/-- Transitions that do not pass a test do not change the numbers of those that do. -/
theorem liveNumbers_append {ts : List (Transition ν)} {p : Transition ν → Bool}
    (transitions : B.transitions.toList = A.transitions.toList ++ ts)
    (others : ∀ t ∈ ts, p t = false) : B.liveNumbers p = A.liveNumbers p := by
  have none : (ts.zipIdx A.transitions.toList.length).filter
      (fun t => !t.1.deleted && p t.1) = [] := by
    refine List.filter_eq_nil_iff.mpr fun t ht => ?_
    simp [others t.1 (List.fst_mem_of_mem_zipIdx ht)]
  rw [liveNumbers, transitions, List.zipIdx_append, List.filter_append, Nat.zero_add, none,
    List.append_nil]
  rfl

/-- Transitions between new states leave the old ones as they are. -/
theorem states_prefix {ts : List (Transition ν)} (hA : A.Intact) (hB : B.Intact)
    (flags : A.flags <+: B.flags) (transitions : B.transitions.toList = A.transitions.toList ++ ts)
    (new : ∀ t ∈ ts, A.states.size ≤ t.source ∧ A.states.size ≤ t.target) :
    A.states.toList <+: B.states.toList := by
  refine List.prefix_iff_getElem?.mpr fun s hs => ?_
  rw [Array.length_toList] at hs
  have old : A.states[s]? = some A.states[s] := Array.getElem?_eq_getElem hs
  have same := List.prefix_iff_getElem?.mp flags s (by rwa [length_flags])
  rw [getElem?_flags] at same
  obtain ⟨state, found, marks⟩ := Option.map_eq_some_iff.mp same
  have flag : (state.accepting, state.deleted) = (A.states[s].accepting, A.states[s].deleted) := by
    simpa [Graph.flags] using marks
  have links (f : Transition ν → Nat) (above : ∀ t ∈ ts, A.states.size ≤ f t) :
      B.liveNumbers (fun t => f t == s) = A.liveNumbers fun t => f t == s :=
    liveNumbers_append transitions fun t ht =>
      beq_eq_false_iff_ne.mpr (Nat.ne_of_gt (Nat.lt_of_lt_of_le hs (above t ht)))
  have outgoing : state.outgoing.toList = A.states[s].outgoing.toList := by
    rw [hB.outgoing_eq s state found, hA.outgoing_eq s _ old]
    exact links (fun t => t.source) fun t ht => (new t ht).1
  have incoming : state.incoming.toList = A.states[s].incoming.toList := by
    rw [hB.incoming_eq s state found, hA.incoming_eq s _ old]
    exact links (fun t => t.target) fun t ht => (new t ht).2
  rw [Array.getElem?_toList, found, Array.getElem_toList, Option.some.injEq]
  exact State.eq_of_parts flag incoming outgoing

/-- The links of an intact automaton follow from its transitions. -/
theorem eq_of_flags (hA : A.Intact) (hB : B.Intact) (tag : A.tag = B.tag)
    (flags : A.flags = B.flags) (transitions : A.transitions = B.transitions)
    (initial : A.initial = B.initial) : A = B := by
  have same : A.states.toList = B.states.toList := by
    have part : A.flags <+: B.flags := flags ▸ List.prefix_refl A.flags
    have none : B.transitions.toList = A.transitions.toList ++ [] := by simp [transitions]
    have states := states_prefix hA hB part none fun t ht => absurd ht List.not_mem_nil
    have sizes := congrArg List.length flags
    rw [length_flags, length_flags] at sizes
    exact states.eq_of_length sizes
  have states := Array.toList_inj.mp same
  obtain ⟨⟩ := A
  obtain ⟨⟩ := B
  simp_all

/-- The live transitions in the order of their creation. -/
def liveEdges (g : Graph ν) : List (Edge ν) := g.liveTransitions.map (·.1.toEdge)

theorem mem_liveEdges {e : Edge ν} :
    e ∈ g.liveEdges ↔ ∃ t i, (t, i) ∈ g.liveTransitions ∧ t.toEdge = e := by
  simp only [liveEdges, List.mem_map, Prod.exists]

theorem map_fst_liveTransitions :
    g.liveTransitions.map (·.1) = g.transitions.toList.filter fun t => !t.deleted := by
  conv_rhs => rw [← List.zipIdx_map_fst 0 g.transitions.toList, List.filter_map]
  rfl

theorem liveEdges_eq :
    g.liveEdges = (g.transitions.toList.filter fun t => !t.deleted).map Transition.toEdge := by
  rw [← map_fst_liveTransitions, List.map_map]
  rfl

end

section
variable {ν : Type} [DecidableEq ν]

/-! ### Additions -/

/-- Changes made one after another, up to the first one that fails. -/
def perform (g : Graph ν) (edits : List (Edit ν)) : Except Error (Graph ν) := edits.foldlM edit g

/-- An equal transition is found among those of a state if there is one. -/
theorem edgeAmong?_eq_none_iff {g : Graph ν} (hg : g.Intact) (target : Nat) {s : Nat}
    {state : State} (hs : g.states[s]? = some state) (c : Condition ν) :
    g.edgeAmong? ⟨g.tag, target⟩ c state.outgoing = none ↔ ⟨s, target, c⟩ ∉ g.liveEdges := by
  rw [edgeAmong?, Array.find?_eq_none]
  constructor
  · intro none mem
    obtain ⟨t, i, ht, same⟩ := mem_liveEdges.mp mem
    obtain ⟨found, alive⟩ := mem_liveTransitions_iff.mp ht
    refine none i (Array.mem_toList_iff.mp ?_) ?_
    · rw [hg.outgoing_eq s state hs, mem_liveNumbers]
      exact ⟨t, found, alive, by simp [same]⟩
    · simp [found, same]
  · intro absent i hi equal
    rw [← Array.mem_toList_iff, hg.outgoing_eq s state hs, mem_liveNumbers] at hi
    obtain ⟨t, found, alive, source⟩ := hi
    simp only [found, Option.any_some, decide_true, Bool.true_and, Bool.and_eq_true,
      decide_eq_true_eq] at equal
    refine absent (mem_liveEdges.mpr ⟨t, i, mem_liveTransitions_iff.mpr ⟨found, alive⟩, ?_⟩)
    obtain ⟨⟨r, _, _⟩, _⟩ := t
    obtain ⟨rfl, rfl⟩ := equal
    exact congrArg (Edge.mk · _ _) (beq_iff_eq.mp source)

end

/-- What is added to an automaton that is being made, with its states told by their numbers. -/
inductive Addition (ν : Type) where
  | state
  | accepting (s : Nat)
  | initial (s : Nat)
  | edge (e : Edge ν)
  /-- The edge, unless there already is an equal one. -/
  | edgeOnce (e : Edge ν)

/-- What has been added so far. -/
structure Sketch (ν : Type) where
  accepting : List Bool
  edges : List (Edge ν)
  initial : Option Nat

variable {ν : Type}

namespace Addition

/-- The change of the automaton with the given tag. -/
def edit (tag : Nat) : Addition ν → Edit ν
  | state => .addState
  | accepting s => .setAccepting ⟨tag, s⟩
  | initial s => .setInitial ⟨tag, s⟩
  | edge e => .addTransition ⟨tag, e.source⟩ ⟨tag, e.target⟩ e.condition
  | edgeOnce e => .addTransitionOnce ⟨tag, e.source⟩ ⟨tag, e.target⟩ e.condition

/-- A state, and whether it accepts. -/
def told (a : Bool × Nat) : List (Addition ν) := state :: if a.1 then [accepting a.2] else []

/-- Only states below a bound are named. -/
def Fits (n : Nat) : Addition ν → Prop
  | state => True
  | accepting s => s < n
  | initial s => s < n
  | edge e => e.source < n ∧ e.target < n
  | edgeOnce e => e.source < n ∧ e.target < n

end Addition

namespace Sketch

def nothing : Sketch ν := ⟨[], [], none⟩

/-- The automaton has what has been added, and nothing else. -/
structure Draws (d : Sketch ν) (g : Graph ν) : Prop where
  intact : g.Intact
  flags : g.flags = d.accepting.map (·, false)
  transitions : g.transitions.toList = d.edges.map fun e => ⟨e, false⟩
  initial : g.initial = d.initial

namespace Draws

variable {d : Sketch ν} {g : Graph ν} {s : Nat}

theorem empty (tag : Nat) : nothing.Draws (Graph.empty tag : Graph ν) :=
  ⟨.empty tag, rfl, rfl, rfl⟩

/-- A state that has been added is there. -/
theorem exists_state (h : d.Draws g) (lt : s < d.accepting.length) :
    ∃ state, g.states[s]? = some state ∧ state.deleted = false := by
  have flag := getElem?_flags g s
  rw [h.flags, List.getElem?_map, List.getElem?_eq_getElem lt] at flag
  obtain ⟨state, found, marks⟩ := Option.map_eq_some_iff.mp flag.symm
  exact ⟨state, found, congrArg Prod.snd marks⟩

/-- The name of a state that has been added can be used. -/
theorem liveState (h : d.Draws g) (lt : s < d.accepting.length) :
    ∃ state, g.states[s]? = some state ∧ g.liveState ⟨g.tag, s⟩ = .ok state := by
  obtain ⟨state, found, alive⟩ := h.exists_state lt
  exact ⟨state, found, liveState_eq found alive⟩

theorem liveEdges (h : d.Draws g) : g.liveEdges = d.edges := by
  rw [liveEdges_eq, h.transitions, List.filter_eq_self.mpr, List.map_map]
  · exact List.map_id d.edges
  · intro t ht
    obtain ⟨e, -, rfl⟩ := List.mem_map.mp ht
    rfl

theorem flags_build {tag : Nat} {accepting : List Bool} {edges : List (Edge ν)}
    {initial : Option Nat} : (build tag accepting edges initial).flags =
      accepting.map (·, false) := by
  have connects (g : Graph ν) : (edges.foldl Graph.connect g).flags = g.flags := by
    induction edges generalizing g with
    | nil => rfl
    | cons e rest ih => exact (ih (g.connect e)).trans (flags_connect g e)
  refine (connects _).trans ?_
  rw [Graph.flags, states_addBareStates]
  simp [Graph.empty, State.bare]

/-- There is one automaton with what has been added. -/
theorem eq_build (h : d.Draws g) : g = build g.tag d.accepting d.edges d.initial := by
  have below {s : Nat} (live : g.IsLive s) : s < d.accepting.length := by
    have lt := live.lt
    rwa [← length_flags, h.flags, List.length_map] at lt
  have joins : Joins d.accepting.length d.edges := by
    intro e he
    have mem : (⟨e, false⟩ : Transition ν) ∈ g.transitions.toList := by
      rw [h.transitions]
      exact List.mem_map.mpr ⟨e, he, rfl⟩
    obtain ⟨i, found⟩ := List.mem_iff_getElem?.mp mem
    rw [Array.getElem?_toList] at found
    exact ⟨below (h.intact.source_live i _ found rfl), below (h.intact.target_live i _ found rfl)⟩
  refine eq_of_flags h.intact (intact_build joins fun s start => ?_) ?_ ?_ ?_ h.initial
  · exact below (h.intact.initial_live s (h.initial.trans start))
  · exact tag_of_build.symm
  · rw [h.flags, flags_build]
  · rw [← Array.toList_inj, h.transitions, transitions_build]

end Draws

variable [DecidableEq ν]

/-- Edges with one more, unless it is among them. -/
def includeEdge (edges : List (Edge ν)) (e : Edge ν) : List (Edge ν) :=
  if e ∈ edges then edges else edges ++ [e]

def add (d : Sketch ν) : Addition ν → Sketch ν
  | .state => { d with accepting := d.accepting ++ [false] }
  | .accepting s => { d with accepting := d.accepting.set s true }
  | .initial s => { d with initial := some s }
  | .edge e => { d with edges := d.edges ++ [e] }
  | .edgeOnce e => { d with edges := includeEdge d.edges e }

namespace Draws

variable {d : Sketch ν} {g : Graph ν} {s : Nat}

theorem addBareState (h : d.Draws g) : (d.add .state).Draws (g.addBareState false) := by
  refine ⟨h.intact.addBareState false, ?_, h.transitions, h.initial⟩
  rw [flags_addBareState, h.flags]
  simp [add]

theorem connect (h : d.Draws g) {e : Edge ν} (source : e.source < d.accepting.length)
    (target : e.target < d.accepting.length) : (d.add (.edge e)).Draws (g.connect e) := by
  refine ⟨h.intact.connect (h.exists_state source) (h.exists_state target), ?_, ?_, h.initial⟩
  · rw [flags_connect, h.flags]
    rfl
  · simp [Graph.connect, h.transitions, add]

theorem setAccepting (h : d.Draws g) (s : Nat) : (d.add (.accepting s)).Draws
    { g with states := g.states.modify s fun s => { s with accepting := true } } := by
  refine ⟨h.intact.modify _ _ (fun _ => rfl) (fun _ => rfl) (.inl fun _ => rfl), ?_,
    h.transitions, h.initial⟩
  refine List.ext_getElem? fun r => ?_
  have flag := getElem?_flags g r
  rw [h.flags, List.getElem?_map] at flag
  rw [getElem?_flags, Array.getElem?_modify, add, List.getElem?_map, List.getElem?_set]
  by_cases same : s = r
  · subst same
    rw [if_pos rfl, if_pos rfl, Option.map_map]
    cases found : g.states[s]? with
    | none =>
      rw [found] at flag
      have out : ¬ s < d.accepting.length := by simpa using flag
      simp [out]
    | some state =>
      rw [found] at flag
      obtain ⟨b, inside, marks⟩ := Option.map_eq_some_iff.mp flag
      have alive : state.deleted = false := (congrArg Prod.snd marks).symm
      simp [(List.getElem?_eq_some_iff.mp inside).1, alive]
  · rw [if_neg same, if_neg same, flag]

theorem setInitial (h : d.Draws g) (lt : s < d.accepting.length) :
    (d.add (.initial s)).Draws { g with initial := some s } :=
  ⟨h.intact.setInitial (h.exists_state lt), h.flags, h.transitions, rfl⟩

/-- An edge that may be there already is added if it is not. -/
theorem edgeOnce (h : d.Draws g) {e : Edge ν} (source : e.source < d.accepting.length)
    (target : e.target < d.accepting.length) :
    ∃ g', g.edit ((Addition.edgeOnce e).edit g.tag) = .ok g' ∧ (d.add (.edgeOnce e)).Draws g' ∧
      g'.tag = g.tag := by
  obtain ⟨state, there, leaves⟩ := h.liveState source
  obtain ⟨_, -, enters⟩ := h.liveState target
  have among := edgeAmong?_eq_none_iff h.intact e.target there e.condition
  rw [h.liveEdges] at among
  rw [Addition.edit, Graph.edit, addTransitionOnce, leaves]
  simp only [bind, Except.bind]
  cases found : g.edgeAmong? ⟨g.tag, e.target⟩ e.condition state.outgoing with
  | some t =>
    have old : e ∈ d.edges := by
      by_contra new
      cases found.symm.trans (among.mpr new)
    refine ⟨g, rfl, ?_, rfl⟩
    rwa [add, includeEdge, if_pos old]
  | none =>
    have new : e ∉ d.edges := among.mp found
    refine ⟨g.connect e, ?_, ?_, rfl⟩
    · simp only [addTransition, leaves, enters, bind, Except.bind]
      rfl
    · rw [add, includeEdge, if_neg new]
      exact h.connect source target

/-- An addition does not fail if it names states that have been added. -/
theorem edit (h : d.Draws g) {a : Addition ν} (fits : a.Fits d.accepting.length) :
    ∃ g', g.edit (a.edit g.tag) = .ok g' ∧ (d.add a).Draws g' ∧ g'.tag = g.tag := by
  cases a with
  | state => exact ⟨_, rfl, h.addBareState, rfl⟩
  | accepting s =>
    obtain ⟨state, -, found⟩ := h.liveState fits
    refine ⟨_, ?_, h.setAccepting s, rfl⟩
    change g.setAccepting ⟨g.tag, s⟩ = _
    rw [Graph.setAccepting, found]
    rfl
  | initial s =>
    obtain ⟨state, -, found⟩ := h.liveState fits
    refine ⟨_, ?_, h.setInitial fits, rfl⟩
    change g.setInitial ⟨g.tag, s⟩ = _
    rw [Graph.setInitial, found]
    rfl
  | edge e =>
    obtain ⟨_, -, leaves⟩ := h.liveState fits.1
    obtain ⟨_, -, enters⟩ := h.liveState fits.2
    refine ⟨_, ?_, h.connect fits.1 fits.2, rfl⟩
    rw [Addition.edit, Graph.edit, addTransition, leaves, enters]
    rfl
  | edgeOnce e => exact h.edgeOnce fits.1 fits.2

end Draws

/-- Additions, each of which names states that are there by then, make the one sketch the other
one. -/
inductive Makes : Sketch ν → List (Addition ν) → Sketch ν → Prop
  | nil {d : Sketch ν} : Makes d [] d
  | cons {d d' : Sketch ν} {a : Addition ν} {as : List (Addition ν)}
      (fits : a.Fits d.accepting.length) (rest : Makes (d.add a) as d') : Makes d (a :: as) d'

variable {d d' d'' : Sketch ν} {as bs : List (Addition ν)}

theorem Makes.perform (h : Makes d as d') {g : Graph ν} (draws : d.Draws g) :
    ∃ g', g.perform (as.map (Addition.edit g.tag)) = .ok g' ∧ d'.Draws g' ∧ g'.tag = g.tag := by
  induction h generalizing g with
  | nil => exact ⟨g, rfl, draws, rfl⟩
  | cons fits rest ih =>
    obtain ⟨g', step, drawn, tag⟩ := draws.edit fits
    obtain ⟨g'', steps, drawn', tag'⟩ := ih drawn
    refine ⟨g'', ?_, drawn', tag'.trans tag⟩
    rw [tag] at steps
    rw [Graph.perform, List.map_cons, List.foldlM_cons, step]
    exact steps

/-- Additions to nothing come to the automaton that is built from what has been added. -/
theorem perform_of_makes (h : Makes nothing as d) (tag : Nat) :
    (Graph.empty tag).perform (as.map (Addition.edit tag)) =
      .ok (build tag d.accepting d.edges d.initial) := by
  obtain ⟨g, ok, draws, tagged⟩ := h.perform (.empty tag)
  refine ok.trans (congrArg Except.ok (draws.eq_build.trans ?_))
  rw [tagged]
  rfl

theorem Makes.append (h : Makes d as d') (k : Makes d' bs d'') : Makes d (as ++ bs) d'' := by
  induction h with
  | nil => exact k
  | cons fits rest ih => exact .cons fits (ih k)

/-! ### Many additions of one kind -/

theorem makes_states (d : Sketch ν) (n : Nat) : Makes d (List.replicate n .state)
    { d with accepting := d.accepting ++ List.replicate n false } := by
  induction n generalizing d with
  | zero =>
    rw [List.replicate_zero, List.replicate_zero, List.append_nil]
    exact .nil
  | succ n ih =>
    have rest := ih (d.add .state)
    simp only [add, List.append_assoc] at rest
    exact .cons trivial rest

theorem makes_edges {es : List (Edge ν)} (ends : Joins d.accepting.length es) :
    Makes d (es.map .edge) { d with edges := d.edges ++ es } := by
  induction es generalizing d with
  | nil =>
    rw [List.append_nil]
    exact .nil
  | cons e es ih =>
    obtain ⟨own, others⟩ := List.forall_mem_cons.mp ends
    have rest := ih (d := d.add (.edge e)) others
    simp only [add, List.append_assoc] at rest
    exact .cons own rest

theorem makes_edgesOnce {es : List (Edge ν)} (ends : Joins d.accepting.length es) :
    Makes d (es.map .edgeOnce) { d with edges := es.foldl includeEdge d.edges } := by
  induction es generalizing d with
  | nil => exact .nil
  | cons e es ih =>
    obtain ⟨own, others⟩ := List.forall_mem_cons.mp ends
    exact .cons own (ih (d := d.add (.edgeOnce e)) others)

theorem length_marked (accepting : List Bool) (s : Nat) (b : Bool) :
    (if b then accepting.set s true else accepting).length = accepting.length := by
  cases b with
  | false => rfl
  | true => exact List.length_set

theorem makes_accepting {s : Nat} (lt : s < d.accepting.length) (b : Bool) :
    Makes d (if b then [.accepting s] else [])
      { d with accepting := if b then d.accepting.set s true else d.accepting } := by
  cases b with
  | false => exact .nil
  | true => exact .cons lt .nil

/-- States are added one by one, each told whether it accepts. -/
theorem makes_told (accepting : List Bool) :
    Makes d ((accepting.zipIdx d.accepting.length).flatMap Addition.told)
      { d with accepting := d.accepting ++ accepting } := by
  induction accepting generalizing d with
  | nil => simpa using Makes.nil
  | cons a rest ih =>
    have own : d.accepting.length < (d.add .state).accepting.length := by simp [add]
    have first : Makes d (Addition.told (a, d.accepting.length))
        { d with accepting := d.accepting ++ [a] } := by
      have marked := makes_accepting own a
      refine .cons trivial ?_
      cases a with
      | false => exact marked
      | true => simpa [add] using marked
    have others := ih (d := { d with accepting := d.accepting ++ [a] })
    simp only [List.length_append, List.length_singleton, List.append_assoc] at others
    exact first.append others

theorem makes_initial {start : Option Nat} (unset : d.initial = none)
    (lt : ∀ s ∈ start, s < d.accepting.length) :
    Makes d (start.toList.map .initial) { d with initial := start } := by
  cases start with
  | none =>
    have same : { d with initial := none } = d := congrArg (Sketch.mk _ _) unset.symm
    rw [same]
    exact .nil
  | some s => exact .cons (lt s rfl) .nil

/-- New edges come each once, in the order in which they are met first. -/
theorem foldl_includeEdge [Hashable ν] {edges es : List (Edge ν)} (new : ∀ e ∈ es, e ∉ edges) :
    es.foldl includeEdge edges = edges ++ distinct es := by
  induction es using List.reverseRecOn with
  | nil => exact (List.append_nil edges).symm
  | append_singleton es e ih =>
    have other : e ∉ edges := new e (by simp)
    have met : e ∈ edges ++ distinct es ↔ e ∈ es := by
      simp [other, mem_distinct]
    rw [List.foldl_append, ih fun f hf => new f (by simp [hf]), List.foldl_cons, List.foldl_nil,
      includeEdge, distinct_append]
    by_cases old : e ∈ es
    · rw [if_pos (met.mpr old), if_pos old]
    · rw [if_neg fun h => old (met.mp h), if_neg old, List.append_assoc]

end Sketch

end Graph

end PatternAutomata
