import PatternAutomata.Proofs.Additions
import PatternAutomata.Proofs.Lockstep
import PatternAutomata.Proofs.Spindles

/-!
# What the construction appends

A pass that succeeds appends a spindle to the automaton that is being built, whatever that is, and
changes nothing else (`Appends`): the states that were there keep their transitions, too. An
automaton that was empty before is therefore a single thread of states between its initial state and
its accepting one (`Threaded`).
-/
namespace PatternAutomata

open Fragment (Spindle Way)

namespace Graph

section
variable {ν : Type} {g A B : Graph ν} {f : Fragment}

theorem of_flags {s : Nat} (h : g.flags[s]? = some (false, false)) :
    g.IsLive s ∧ g.isAccepting s = false := by
  rw [getElem?_flags] at h
  obtain ⟨state, found, marks⟩ := Option.map_eq_some_iff.mp h
  obtain ⟨accepting, deleted⟩ := Prod.mk.inj marks
  exact ⟨⟨state, found, deleted⟩, by simp [isAccepting, found, accepting]⟩

theorem Intact.ends_lt (hg : g.Intact) {t : Transition ν} (ht : t ∈ g.transitions.toList)
    (alive : t.deleted = false) : t.source < g.states.size ∧ t.target < g.states.size := by
  obtain ⟨i, found⟩ := List.mem_iff_getElem?.mp ht
  rw [Array.getElem?_toList] at found
  exact ⟨(hg.source_live i t found alive).lt, (hg.target_live i t found alive).lt⟩

/-- Transitions between older states do not touch the ends of a spindle either. -/
theorem links_of_spindle {olds ts : List (Transition ν)} {lo hi : Nat} (hg : g.Intact)
    (old : ∀ t ∈ olds, t.deleted = false → t.source < lo ∧ t.target < lo)
    (transitions : g.transitions.toList = olds ++ ts)
    (spindle : Spindle lo hi (ts.map fun t => t.arc) f) :
    g.incoming f.entry = [] ∧ g.outgoing f.exit = [] := by
  have arc {t : Transition ν} (ht : t ∈ ts) : t.arc ∈ ts.map fun t => t.arc :=
    List.mem_map.mpr ⟨t, ht, rfl⟩
  refine ⟨List.eq_nil_iff_forall_not_mem.mpr fun t ht => ?_,
    List.eq_nil_iff_forall_not_mem.mpr fun t ht => ?_⟩
  · obtain ⟨mem, alive, target⟩ := hg.mem_incoming.mp ht
    rcases List.mem_append.mp (transitions ▸ mem) with before | added
    · have lt := (old t before alive).2
      exact absurd spindle.entry.1 (by omega)
    · exact spindle.entry_free t.arc (arc added) target
  · obtain ⟨mem, alive, source⟩ := hg.mem_outgoing.mp ht
    rcases List.mem_append.mp (transitions ▸ mem) with before | added
    · have lt := (old t before alive).1
      exact absurd spindle.exit.1 (by omega)
    · exact spindle.exit_free t.arc (arc added) source

/-- One automaton is another one with the states and the transitions of a spindle appended. The new
transitions are alive and join new states, which are alive and do not accept. -/
structure Appends (A B : Graph ν) (f : Fragment) : Prop where
  tag : B.tag = A.tag
  initial : B.initial = A.initial
  states : A.states.toList <+: B.states.toList
  transitions : A.transitions.toList <+: B.transitions.toList
  fresh : ∀ s, A.states.size ≤ s → s < B.states.size → B.IsLive s ∧ B.isAccepting s = false
  alive : ∀ t ∈ B.transitions.toList.drop A.transitions.size, t.deleted = false
  spindle : Spindle A.states.size B.states.size
    ((B.transitions.toList.drop A.transitions.size).map fun t => t.arc) f
  incoming : B.incoming f.entry = []
  outgoing : B.outgoing f.exit = []
  single : f.entry = f.exit → B.transitions = A.transitions

/-- Transitions lead from one state to another, if their conditions are left aside. -/
def Joined (g : Graph ν) : Nat → Nat → Prop :=
  Relation.ReflTransGen fun s t => ∃ r ∈ g.outgoing s, r.target = t

/-- Every state lies between the initial state, which no transition enters, and the accepting state,
which no transition leaves. -/
structure Threaded (g : Graph ν) (i x : Nat) : Prop where
  initial : g.initial = some i
  accepting : ∀ s, g.isAccepting s = true ↔ s = x
  incoming : g.incoming i = []
  outgoing : g.outgoing x = []
  through : ∀ s, g.IsLive s → g.Joined i s ∧ g.Joined s x

theorem joined_of_way {ts : List (Transition ν)} (hg : g.Intact)
    (alive : ∀ t ∈ ts, t.deleted = false) (sub : ts ⊆ g.transitions.toList) {s t : Nat}
    (way : Way (ts.map fun t => t.arc) s t) : g.Joined s t := by
  refine Relation.ReflTransGen.mono ?_ s t way
  intro s t arc
  obtain ⟨r, hr, ends⟩ := List.mem_map.mp arc
  obtain ⟨rfl, rfl⟩ := Prod.mk.inj ends
  exact ⟨r, hg.mem_outgoing.mpr ⟨sub hr, alive r hr, rfl⟩, rfl⟩

theorem isAccepting_modify {x s : Nat} (hx : g.IsLive x) (none : ∀ s, g.isAccepting s = false) :
    isAccepting { g with states := g.states.modify x fun s => { s with accepting := true } } s =
      true ↔ s = x := by
  rw [isAccepting, Array.getElem?_modify]
  by_cases same : x = s
  · subst same
    obtain ⟨state, found, alive⟩ := hx
    simp [found, alive]
  · rw [if_neg same]
    have := none s
    rw [isAccepting] at this
    simp [this, Ne.symm same]

/-- An automaton that is a spindle as a whole. -/
theorem threaded_of_spindle {n : Nat} (hg : g.Intact) (live : ∀ s, g.IsLive s → s < n)
    (alive : ∀ t ∈ g.transitions.toList, t.deleted = false)
    (spindle : Spindle 0 n (g.transitions.toList.map fun t => t.arc) f)
    (initial : g.initial = some f.entry) (accepting : ∀ s, g.isAccepting s = true ↔ s = f.exit) :
    g.Threaded f.entry f.exit := by
  have joined {s t : Nat} (way : Way (g.transitions.toList.map fun t => t.arc) s t) :
      g.Joined s t := joined_of_way hg alive (fun _ => id) way
  obtain ⟨incoming, outgoing⟩ := links_of_spindle hg
    (fun t (ht : t ∈ []) => absurd ht List.not_mem_nil) rfl spindle
  exact ⟨initial, accepting, incoming, outgoing, fun s hs =>
    (spindle.through s (Nat.zero_le s) (live s hs)).imp joined joined⟩

end

end Graph

namespace OnePass

open PatternAutomata.Graph

variable {A : Automaton} {w : Workshop} {d : Draft}

/-- The automaton of a workshop is another one with the states and the edges of a draft appended,
which counts the states of the other one, too. -/
structure Stands (A : Automaton) (w : Workshop) (d : Draft) : Prop where
  intact : w.automaton.Intact
  tag : w.automaton.tag = A.tag
  initial : w.automaton.initial = A.initial
  states : ∃ n, d.size = A.states.size + n ∧
    w.automaton.flags = A.flags ++ List.replicate n (false, false)
  transitions : ∃ E : List (Edge Nested),
    w.automaton.transitions.toList = A.transitions.toList ++ E.map (fun e => ⟨e, false⟩) ∧
      E.map Edge.arc = d.edges.toList.map Edge.arc

namespace Stands

theorem start (hA : w.automaton.Intact) :
    Stands w.automaton w ⟨w.automaton.states.size, #[]⟩ :=
  ⟨hA, rfl, rfl, ⟨0, rfl, by simp⟩, ⟨[], by simp, by simp⟩⟩

theorem size (h : Stands A w d) : w.automaton.states.size = d.size := by
  obtain ⟨n, size, flags⟩ := h.states
  have length := congrArg List.length flags
  rw [length_flags, List.length_append, length_flags, List.length_replicate] at length
  exact length.trans size.symm

theorem of_automaton {w' : Workshop} (h : Stands A w d) (same : w'.automaton = w.automaton) :
    Stands A w' d := by
  obtain ⟨g, known, nextTag⟩ := w'
  cases same
  exact ⟨h.intact, h.tag, h.initial, h.states, h.transitions⟩

theorem newState : Lockstep (Stands A) newState Fragment.newState StateId.index := by
  intro w d h s w' ok
  cases ok
  obtain ⟨n, size, flags⟩ := h.states
  refine ⟨h.size.symm, h.intact.addBareState false, h.tag, h.initial, ⟨n + 1, ?_, ?_⟩,
    h.transitions⟩
  · exact congrArg (· + 1) size
  · change (w.automaton.addBareState false).flags = _
    rw [flags_addBareState, flags, List.append_assoc, List.replicate_succ']

theorem edge {c : Condition Expr} {c' : Condition Nested} : EdgeStep (Stands A) c c' := by
  intro source target w d h u w' ok
  obtain ⟨hs, ht, rfl⟩ := join_ok ok
  obtain ⟨n, size, flags⟩ := h.states
  obtain ⟨E, transitions, arcs⟩ := h.transitions
  refine ⟨rfl, h.intact.connect hs ht, h.tag, h.initial, ⟨n, size, ?_⟩,
    ⟨E ++ [⟨source.index, target.index, c'⟩], ?_, ?_⟩⟩
  · exact (flags_connect _ _).trans flags
  · change (w.automaton.transitions.push _).toList = _
    simp [transitions]
  · change _ = ((d.edges.push _).toList).map Edge.arc
    simp [arcs]

theorem steady : Steady (Stands A) := ⟨newState, fun _ => edge, fun _ => edge, edge⟩

/-- What makes nested automata leaves the automaton alone. -/
theorem looks {nest : Expr → Pass Nested} {mode : Mode}
    (keeps : ∀ b w n w', (nest b).run w = .ok (n, w') → w'.automaton = w.automaton) (b : Expr) :
    Looks (Stands A) nest mode b := by
  intro negated w d h f w' ok
  rw [StateT.run_bind] at ok
  obtain ⟨⟨n, w₁⟩, nested, ok⟩ := bind_eq_ok.mp ok
  exact steady.single edge w₁ d (h.of_automaton (keeps b w n w₁ nested)) f w' ok

/-- If the draft is a spindle, it is what has been appended. -/
theorem appends {f : Fragment} (hA : A.Intact) (h : Stands A w d)
    (spindle : Spindle A.states.size d.size (d.edges.toList.map Edge.arc) f) :
    A.Appends w.automaton f := by
  obtain ⟨n, size, flags⟩ := h.states
  obtain ⟨E, transitions, arcs⟩ := h.transitions
  have arcs' : (E.map fun e => (⟨e, false⟩ : Transition Nested)).map (fun t => t.arc) =
      d.edges.toList.map Edge.arc := by
    rw [← arcs, List.map_map]
    rfl
  rw [← h.size, ← arcs'] at spindle
  have drop : w.automaton.transitions.toList.drop A.transitions.size =
      E.map fun e => ⟨e, false⟩ := by
    rw [transitions, ← Array.length_toList, List.drop_left]
  have new (t : Transition Nested) (ht : t ∈ E.map fun e => (⟨e, false⟩ : Transition Nested)) :=
    spindle.inside t.arc (List.mem_map.mpr ⟨t, ht, rfl⟩)
  obtain ⟨incoming, outgoing⟩ :=
    links_of_spindle h.intact (fun t => hA.ends_lt) transitions spindle
  refine ⟨h.tag, h.initial, ?_, ⟨_, transitions.symm⟩, fun s le lt => of_flags ?_, ?_,
    drop ▸ spindle, incoming, outgoing, fun same => ?_⟩
  · exact states_prefix hA h.intact ⟨_, flags.symm⟩ transitions fun t ht =>
      ⟨(new t ht).1.1, (new t ht).2.1⟩
  · have lt' : s - A.states.size < n := by
      have := h.size
      omega
    rw [flags, List.getElem?_append_right (by rwa [length_flags]), length_flags]
    simp [lt']
  · simp [drop]
  · have none := List.map_eq_nil_iff.mp (spindle.eq_nil same)
    rw [none, List.append_nil] at transitions
    exact Array.toList_inj.mp transitions

end Stands

section

variable {α β : Type} {p : Pass α} {passes : List (Pass Part)} {nest : Expr → Pass Nested}
  {mode : Mode}

/-- The pass succeeds at least once. -/
def Completes (p : Pass α) : Prop := ∃ w a w', p.run w = .ok (a, w')

theorem not_completes_throw (err : Error) : ¬ Completes (throw err : Pass α) := by
  rintro ⟨w, a, w', ⟨⟩⟩

theorem Completes.of_bind {k : α → Pass β} (h : Completes (p >>= k)) :
    Completes p ∧ ∃ a, Completes (k a) := by
  obtain ⟨w, b, w'', ok⟩ := h
  rw [StateT.run_bind] at ok
  obtain ⟨⟨a, w'⟩, first, rest⟩ := bind_eq_ok.mp ok
  exact ⟨⟨w, a, w', first⟩, a, w', b, w'', rest⟩

theorem completes_appendFrom {exit : StateId} (h : Completes (appendFrom exit passes)) :
    ∀ p ∈ passes, Completes p := by
  induction passes generalizing exit with
  | nil => simp
  | cons p passes ih =>
    obtain ⟨first, f, rest⟩ := h.of_bind
    obtain ⟨-, u, rest⟩ := rest.of_bind
    exact List.forall_mem_cons.mpr ⟨first, ih rest⟩

theorem completes_inSequence (h : Completes (inSequence passes)) :
    passes ≠ [] ∧ ∀ p ∈ passes, Completes p := by
  cases passes with
  | nil => exact absurd h (not_completes_throw _)
  | cons p passes =>
    obtain ⟨first, f, rest⟩ := h.of_bind
    exact ⟨by simp, List.forall_mem_cons.mpr ⟨first, completes_appendFrom rest.of_bind.1⟩⟩

theorem completes_branches {entry exit : StateId} (h : Completes (branches entry exit passes)) :
    ∀ p ∈ passes, Completes p := by
  induction passes with
  | nil => simp
  | cons p passes ih =>
    obtain ⟨first, f, rest⟩ := h.of_bind
    obtain ⟨-, u, rest⟩ := rest.of_bind
    obtain ⟨-, u, rest⟩ := rest.of_bind
    exact List.forall_mem_cons.mpr ⟨first, ih rest⟩

theorem completes_sideBySide (h : Completes (sideBySide passes)) :
    passes ≠ [] ∧ ∀ p ∈ passes, Completes p := by
  cases passes with
  | nil => exact absurd h (not_completes_throw _)
  | cons p passes =>
    obtain ⟨-, entry, rest⟩ := h.of_bind
    obtain ⟨-, exit, rest⟩ := rest.of_bind
    exact ⟨by simp, completes_branches rest.of_bind.1⟩

/-- A repetition that is not malformed has a copy of its body. -/
theorem completes_repeated {body : Pass Part} {e : Expr} {min : Nat} {max : Option Nat}
    (h : Completes (repeated body min max)) :
    (Expr.repetition e min max).ownFault? = none ∧ Completes body := by
  rw [repeated] at h
  split at h
  · exact absurd h (not_completes_throw _)
  · next good =>
    refine ⟨by simp only [Expr.ownFault?, good]; rfl, ?_⟩
    obtain ⟨-, entry, rest⟩ := h.of_bind
    cases min with
    | succ n => exact rest.of_bind.1.of_bind.1
    | zero =>
      rw [copies, pure_bind] at rest
      obtain ⟨-, exit, rest⟩ := rest.of_bind
      have last := rest.of_bind.1
      cases max with
      | none => exact last.of_bind.1.of_bind.1
      | some max =>
        cases max with
        | zero => simp at good
        | succ n => exact last.of_bind.1.of_bind.1

mutual

theorem wellFormed_of_completes : (e : Expr) → Completes (passWith nest mode e) →
    WellFormed e.outline
  | .charClass _, _ | .literal _, _ | .lookahead _ _, _ => by simp [WellFormed, Expr.outline]; rfl
  | .sequence items, h => by
    obtain ⟨some, all⟩ := completes_inSequence h
    have own : (Expr.sequence items).ownFault? = none := by
      cases items with
      | nil => exact absurd rfl some
      | cons _ _ => rfl
    exact List.forall_mem_cons.mpr ⟨own, wellFormed_of_completesAll items all⟩
  | .alternatives items, h => by
    obtain ⟨some, all⟩ := completes_sideBySide h
    have own : (Expr.alternatives items).ownFault? = none := by
      cases items with
      | nil => exact absurd rfl some
      | cons _ _ => rfl
    exact List.forall_mem_cons.mpr ⟨own, wellFormed_of_completesAll items all⟩
  | .repetition body min max, h => by
    obtain ⟨own, each⟩ := completes_repeated (e := body) h
    exact List.forall_mem_cons.mpr ⟨own, wellFormed_of_completes body each⟩

theorem wellFormed_of_completesAll : (es : List Expr) →
    (∀ p ∈ passAllWith nest mode es, Completes p) → WellFormed (Expr.outlineAll es)
  | [], _ => by simp [WellFormed, Expr.outlineAll]
  | e :: es, h => by
    obtain ⟨first, others⟩ := List.forall_mem_cons.mp h
    rw [Expr.outlineAll, WellFormed, List.forall_mem_append]
    exact ⟨wellFormed_of_completes e first, wellFormed_of_completesAll es others⟩

end

/-- A pass that succeeds appends a spindle. -/
theorem appends_passWith {e : Expr} {w w' : Workshop} {f : Part}
    (keeps : ∀ b w n w', (nest b).run w = .ok (n, w') → w'.automaton = w.automaton)
    (hw : w.automaton.Intact) (ok : (passWith nest mode e).run w = .ok (f, w')) :
    w'.automaton.Intact ∧ w.automaton.Appends w'.automaton f.fragment := by
  have sound : WellFormed e.outline := wellFormed_of_completes e ⟨w, f, w', ok⟩
  obtain ⟨E, adds, spindle⟩ := Fragment.spins_ofExpr mode sound e (fun _ he => he)
    ⟨w.automaton.states.size, #[]⟩
  obtain ⟨same, stands⟩ := lockstep_pass Stands.steady e (fun b _ => Stands.looks keeps b) w _
    (.start hw) f w' ok
  have edges : E.map Edge.arc = _ := congrArg (List.map Edge.arc) adds.edges.symm
  rw [edges, same] at spindle
  exact ⟨stands.intact, stands.appends hw spindle⟩

/-- Making a nested automaton leaves the automaton of the workshop alone. -/
theorem automaton_once {b : Expr} {build : Pass Part} {w w' : Workshop} {n : Nested}
    (ok : (once mode b build).run w = .ok (n, w')) : w'.automaton = w.automaton := by
  cases known : w.known[b]? with
  | some n =>
    rw [once_of_known known] at ok
    cases ok
    rfl
  | none =>
    rw [once_of_new known] at ok
    obtain ⟨_, -, ⟨⟩⟩ := bind_eq_ok.mp ok
    rfl

theorem of_finish_ok {A g : Automaton} {f : Part} (ok : finish .nfa A f = .ok g) :
    A.IsLive f.entry.index ∧ A.IsLive f.exit.index ∧ g = { A with
      initial := some f.entry.index
      states := A.states.modify f.exit.index fun s => { s with accepting := true } } := by
  obtain ⟨g₁, first, ok⟩ := bind_eq_ok.mp ok
  obtain ⟨g₂, second, ok⟩ := bind_eq_ok.mp ok
  obtain ⟨s, entry, ⟨⟩⟩ := bind_eq_ok.mp first
  obtain ⟨t, exit, ⟨⟩⟩ := bind_eq_ok.mp second
  cases ok
  exact ⟨(liveState_ok entry).1, (liveState_ok (g := { A with initial := _ }) exit).1, rfl⟩

theorem threaded_of_compile {tag : Nat} {e : Expr} {A : Automaton}
    (ok : compile tag .nfa e = .ok A) : ∃ i x, A.Threaded i x := by
  obtain ⟨made, compiled⟩ := exists_automatonOf_of_compile ok
  obtain ⟨f, built, finished⟩ := of_automatonOf_ok compiled
  rw [← passWith_once] at built
  obtain ⟨intact, appends⟩ := appends_passWith (fun b w n w' => automaton_once)
    (Intact.empty tag : (Graph.empty tag : Automaton).Intact) built
  obtain ⟨entry, exit, rfl⟩ := of_finish_ok finished
  refine ⟨_, _, threaded_of_spindle (n := made.automaton.states.size) ?_ ?_ appends.alive
    appends.spindle rfl ?_⟩
  · exact (intact.setInitial entry).modify _ _ (fun _ => rfl) (fun _ => rfl) (.inl fun _ => rfl)
  · intro s hs
    simpa using hs.lt
  · refine fun s => isAccepting_modify exit fun s => ?_
    by_cases lt : s < made.automaton.states.size
    · exact (appends.fresh s (Nat.zero_le s) lt).2
    · simp [isAccepting, Array.getElem?_eq_none (Nat.not_lt.mp lt)]

end

end OnePass

namespace Graph

section
variable {ν μ : Type}

theorem arcs_mapNested (g : Graph ν) (nest : Nat → ν → μ) :
    (g.mapNested nest).transitions.toList.map (fun t => t.arc) =
      g.transitions.toList.map fun t => t.arc := by
  refine List.ext_getElem? fun i => ?_
  simp only [List.getElem?_map, Array.getElem?_toList, getElem?_mapNested, Option.map_map]
  rfl

theorem deleted_of_mem_mapNested {g : Graph ν} {nest : Nat → ν → μ} {t : Transition μ}
    (ht : t ∈ (g.mapNested nest).transitions.toList) :
    ∃ r ∈ g.transitions.toList, t.deleted = r.deleted := by
  obtain ⟨i, found⟩ := List.mem_iff_getElem?.mp ht
  rw [Array.getElem?_toList, getElem?_mapNested] at found
  obtain ⟨r, hr, rfl⟩ := Option.map_eq_some_iff.mp found
  exact ⟨r, Array.mem_toList_iff.mpr (Array.mem_of_getElem? hr), rfl⟩

theorem threaded_build {E : List (Edge ν)} {n : Nat} {f : Fragment}
    (spindle : Spindle 0 n (E.map Edge.arc) f) (tag : Nat) (nest : Nat → ν → μ) :
    ((build tag ((List.range n).map (· == f.exit)) E (some f.entry)).mapNested nest).Threaded
      f.entry f.exit := by
  have size : ((List.range n).map (· == f.exit)).length = n := by simp
  have joins : Joins ((List.range n).map (· == f.exit)).length E := by
    intro e he
    obtain ⟨source, target⟩ := spindle.inside e.arc (List.mem_map.mpr ⟨e, he, rfl⟩)
    rw [size]
    exact ⟨source.2, target.2⟩
  let g : Graph ν := build tag ((List.range n).map (· == f.exit)) E (some f.entry)
  have intact : g.Intact := by
    refine intact_build joins ?_
    rintro s ⟨⟩
    exact size.symm ▸ spindle.entry.2
  have live (s : Nat) (hs : g.IsLive s) : s < n := size ▸ isLive_build.mp hs
  have accepting (s : Nat) : g.isAccepting s = true ↔ s = f.exit :=
    isAccepting_build_single spindle.exit.2
  refine threaded_of_spindle intact.mapNested live (fun t ht => ?_) ?_ rfl accepting
  · obtain ⟨r, hr, same⟩ := deleted_of_mem_mapNested ht
    rw [transitions_build] at hr
    obtain ⟨e, -, rfl⟩ := List.mem_map.mp hr
    exact same
  · rw [arcs_mapNested, transitions_build, List.map_map]
    exact spindle

end

theorem threaded_ofExpr {e : Expr} (sound : WellFormed e.outline) (tag : Nat) (mode : Mode)
    (nest : Nat → Expr → Nested) : ∃ i x, ((ofExpr tag mode e).mapNested nest).Threaded i x := by
  obtain ⟨E, adds, spindle⟩ := Fragment.spins_ofExpr mode sound e (fun _ he => he) ⟨0, #[]⟩
  unfold ofExpr
  generalize (Fragment.ofExpr mode e).run ⟨0, #[]⟩ = made at adds spindle ⊢
  obtain ⟨f, d⟩ := made
  have edges : d.edges.toList = E := adds.edges
  rw [← edges] at spindle
  exact ⟨f.entry, f.exit, threaded_build spindle tag nest⟩

/-- The construction appends spindles, whatever there is already. An expression without malformed
parts, the bodies of its lookaheads apart, adds one to every draft; a pass that succeeds adds one to
every automaton whose links agree, wherever nested automata come from, and changes nothing else. So
an automaton that is left as it was constructed is one thread from its initial state to its only
accepting state. -/
theorem construction_spindles (mode : Mode) (e : Expr) :
    (WellFormed e.outline → ∀ d : Draft, ∃ f d' E, (Fragment.ofExpr mode e).run d = (f, d') ∧
      d'.edges.toList = d.edges.toList ++ E ∧ Spindle d.size d'.size (E.map Edge.arc) f ∧
        (f.entry = f.exit → E = [])) ∧
    (∀ nest : Expr → OnePass.Pass Nested,
      (∀ b w n w', (nest b).run w = .ok (n, w') → w'.automaton = w.automaton) →
      ∀ w w' f, w.automaton.Intact → (OnePass.passWith nest mode e).run w = .ok (f, w') →
        w.automaton.Appends w'.automaton f.fragment) ∧
    ∀ tag A, (∃ nest, construct tag mode nest e = .ok A) ∨ compile tag .nfa e = .ok A ∨
      OnePass.compile tag .nfa e = .ok A → ∃ i x, A.Threaded i x := by
  refine ⟨fun sound d => ?_, fun nest keeps w w' f hw ok => ?_, fun tag A ok => ?_⟩
  · obtain ⟨E, adds, spindle⟩ := Fragment.spins_ofExpr mode sound e (fun _ he => he) d
    exact ⟨_, _, E, rfl, adds.edges, spindle, fun same =>
      List.map_eq_nil_iff.mp (spindle.eq_nil same)⟩
  · exact (OnePass.appends_passWith keeps hw ok).2
  · have outline (sound : e.fault? = none) : WellFormed e.outline := fun part mem =>
      Expr.wellFormed_of_fault? sound part (e.outline_sub_walk mem)
    rcases ok with ⟨nest, ok⟩ | ok | ok
    · rw [construct] at ok
      split at ok
      · cases ok
      · next sound =>
        cases ok
        exact threaded_ofExpr (outline sound) tag mode nest
    · obtain ⟨sound, table, -, ok⟩ := of_compile_ok ok
      cases ok
      exact threaded_ofExpr (outline sound) tag .nfa _
    · exact OnePass.threaded_of_compile ok

/-- A loop around a choice between a letter and a lookahead. -/
def choosing : Expr :=
  .repetition (.alternatives [.literal ['a'], .lookahead (.literal ['x']) false]) 1 none

/-- An automaton that leads around in a circle already. -/
def turning : Automaton :=
  (Graph.empty 0).replay [.addState, .setInitial ⟨0, 0⟩, .addTransition ⟨0, 0⟩ ⟨0, 0⟩ .sigma]

theorem construction_spindles_choosing : WellFormed choosing.outline ∧ turning.Intact ∧
    (∃ f d, ∃ E : List (Edge Expr),
      (Fragment.ofExpr .nfa choosing).run ⟨1, #[⟨0, 0, .sigma⟩]⟩ = (f, d) ∧
        Spindle 1 d.size (E.map Edge.arc) f) ∧
    (∃ f w, (OnePass.pass .nfa choosing).run ⟨turning, ∅, 1⟩ = .ok (f, w) ∧
      turning.Appends w.automaton f.fragment) ∧
    ∃ A, compile 0 .nfa choosing = .ok A ∧ ∃ i x, A.Threaded i x := by
  obtain ⟨drafts, passes, compiled⟩ := construction_spindles .nfa choosing
  have fault : choosing.fault? = none := by decide
  have sound : WellFormed choosing.outline := fun part mem =>
    Expr.wellFormed_of_fault? fault part (choosing.outline_sub_walk mem)
  have intact : turning.Intact := (Intact.empty 0).replay _
  obtain ⟨f, d, E, run, -, spindle, -⟩ := drafts sound ⟨1, #[⟨0, 0, .sigma⟩]⟩
  have made := OnePass.constructs_pass .nfa choosing ⟨turning, ∅, 1⟩ ⟨intact, by simp⟩
  rw [fault] at made
  obtain ⟨part, w, built, -, -⟩ := made
  have appends := passes _ (fun b w n w' => OnePass.automaton_once) _ _ _ intact
    ((OnePass.passWith_once .nfa choosing).symm ▸ built)
  obtain ⟨A, -, ok, -⟩ := compile_spec fault 0 .nfa
  exact ⟨sound, intact, ⟨f, d, E, run, spindle⟩, ⟨part, w, built, appends⟩, A, ok,
    compiled 0 A (.inr (.inl ok))⟩

end Graph

end PatternAutomata
