import PatternAutomata.Proofs.SingleWay
import PatternAutomata.Search.Find

/-!
# Other notions of nested automata

Nested automata are met only through the probe that runs them. New ones that answer like the old
ones do are therefore as good (`AnswersLike`), whether or not they depend on where they are met.
Replacing all of them in the same way and probing the replacements is the same as probing what they
replace, in what an automaton accepts (`accepts_replace`) and in what makes it a single way
(`single_replace`).
-/
namespace PatternAutomata

variable {ν μ : Type}

/-- The transition with another notion of nested automata. -/
def Transition.map (f : ν → μ) (t : Transition ν) : Transition μ :=
  ⟨⟨t.source, t.target, t.condition.map f⟩, t.deleted⟩

namespace Condition

variable {f : ν → μ} {probe : Probe μ}

theorem step_map (c : Condition ν) (p : Place) :
    (c.map f).step probe p = c.step (fun n => probe (f n)) p := by
  cases c <;> rfl

theorem map_eq_check_iff {c : Condition ν} {nested : μ} {mode : Mode} {negated : Bool} :
    c.map f = .check nested mode negated ↔ ∃ n, c = .check n mode negated ∧ f n = nested := by
  cases c with
  | char c => simp [map]
  | set s => simp [map]
  | sigma => simp [map]
  | check old m k =>
    simp only [map, check.injEq]
    constructor
    · rintro ⟨rfl, rfl, rfl⟩
      exact ⟨old, ⟨rfl, rfl, rfl⟩, rfl⟩
    · rintro ⟨n, ⟨rfl, rfl, rfl⟩, rfl⟩
      exact ⟨rfl, rfl, rfl⟩

theorem leads_map {c : Condition ν} {u v : List Char} :
    (c.map f).Leads probe u v ↔ c.Leads (fun n => probe (f n)) u v := by
  cases c <;> rfl

end Condition

namespace Graph

variable {f : ν → μ} {probe : Probe μ}

section
variable {g : Graph ν} {f : Nat → ν → μ}

theorem getElem?_mapNested (i : Nat) :
    (g.mapNested f).transitions[i]? = g.transitions[i]?.map (Transition.map (f i)) := by
  simp only [mapNested, Array.getElem?_mapIdx]
  rfl

theorem zipIdx_mapNested : (g.mapNested f).transitions.toList.zipIdx =
    g.transitions.toList.zipIdx.map fun t => (t.1.map (f t.2), t.2) := by
  apply List.ext_getElem?
  intro i
  simp only [List.getElem?_zipIdx, List.getElem?_map, Array.getElem?_toList, getElem?_mapNested,
    Option.map_map, Nat.zero_add]
  rfl

/-- A test of the ends of transitions takes no notice of nested automata. -/
theorem liveNumbers_mapNested (p : Nat → Nat → Bool) :
    (g.mapNested f).liveNumbers (fun t => p t.source t.target) =
      g.liveNumbers fun t => p t.source t.target := by
  unfold liveNumbers
  rw [zipIdx_mapNested, List.filter_map, List.map_map]
  rfl

/-- New nested automata leave everything else in order. -/
theorem Intact.mapNested (h : g.Intact) : (g.mapNested f).Intact := by
  have ends (i : Nat) (t : Transition μ) (ht : (g.mapNested f).transitions[i]? = some t) :
      ∃ t', g.transitions[i]? = some t' ∧ t'.map (f i) = t :=
    Option.map_eq_some_iff.mp (getElem?_mapNested i ▸ ht)
  refine ⟨?_, ?_, ?_, ?_, h.initial_live⟩
  · intro s state hs
    exact (h.outgoing_eq s state hs).trans (liveNumbers_mapNested fun source _ => source == s).symm
  · intro s state hs
    exact (h.incoming_eq s state hs).trans (liveNumbers_mapNested fun _ target => target == s).symm
  · intro i t ht alive
    obtain ⟨t', ht', rfl⟩ := ends i t ht
    exact h.source_live i t' ht' alive
  · intro i t ht alive
    obtain ⟨t', ht', rfl⟩ := ends i t ht
    exact h.target_live i t' ht' alive

theorem mem_liveTransitions_mapNested {t : Transition μ} {n : Nat} :
    (t, n) ∈ (g.mapNested f).liveTransitions ↔
      ∃ r, (r, n) ∈ g.liveTransitions ∧ r.map (f n) = t := by
  simp only [mem_liveTransitions_iff, getElem?_mapNested, Option.map_eq_some_iff]
  constructor
  · rintro ⟨⟨r, hr, rfl⟩, alive⟩
    exact ⟨r, ⟨hr, alive⟩, rfl⟩
  · rintro ⟨r, ⟨hr, alive⟩, rfl⟩
    exact ⟨⟨r, hr, rfl⟩, alive⟩

/-- What leaves a state are the old transitions with their new nested automata. -/
theorem mem_outgoing_mapNested (h : g.Intact) {s : Nat} {t : Transition μ} :
    t ∈ (g.mapNested f).outgoing s ↔
      ∃ r n, (r, n) ∈ g.liveTransitions ∧ r ∈ g.outgoing s ∧ r.map (f n) = t := by
  constructor
  · intro out
    obtain ⟨n, ht⟩ := h.mapNested.mem_liveTransitions out
    obtain ⟨-, -, rfl⟩ := h.mapNested.mem_outgoing.mp out
    obtain ⟨r, hr, rfl⟩ := mem_liveTransitions_mapNested.mp ht
    exact ⟨r, n, hr, h.outgoing_of_live hr, rfl⟩
  · rintro ⟨r, n, hr, out, rfl⟩
    obtain ⟨-, -, rfl⟩ := h.mem_outgoing.mp out
    exact h.mapNested.outgoing_of_live (mem_liveTransitions_mapNested.mpr ⟨r, hr, rfl⟩)

end

/-- In a window the new nested automata answer like the old ones do. -/
def AnswersLike (g : Graph ν) (f : Nat → ν → μ) (probe : Probe μ) (probe' : Probe ν)
    (window : List Char) : Prop :=
  ∀ t n, (t, n) ∈ g.liveTransitions → ∀ nested mode negated,
    t.condition = .check nested mode negated → ∀ u, u <:+ window →
      probe (f n nested) mode u = probe' nested mode u

namespace AnswersLike

variable {g : Graph ν} {f : Nat → ν → μ} {probe : Probe μ} {probe' : Probe ν} {window : List Char}

theorem leads (h : g.AnswersLike f probe probe' window) {t : Transition ν} {n : Nat}
    (ht : (t, n) ∈ g.liveTransitions) {u v : List Char} (hu : u <:+ window) :
    (t.condition.map (f n)).Leads probe u v ↔ t.condition.Leads probe' u v := by
  cases hc : t.condition with
  | char c => exact Iff.rfl
  | set s => exact Iff.rfl
  | sigma => exact Iff.rfl
  | check nested mode negated =>
    simp only [Condition.map, Condition.Leads, h t n ht nested mode negated hc u hu]

theorem moves (h : g.AnswersLike f probe probe' window) (hg : g.Intact) {b c : Config}
    (hb : b.2 <:+ window) : (g.mapNested f).Moves probe b c ↔ g.Moves probe' b c := by
  constructor
  · rintro ⟨t, out, target, leads⟩
    obtain ⟨r, n, hr, old, rfl⟩ := (mem_outgoing_mapNested hg).mp out
    exact ⟨r, old, target, (h.leads hr hb).mp leads⟩
  · rintro ⟨r, out, target, leads⟩
    obtain ⟨n, hr⟩ := hg.mem_liveTransitions out
    exact ⟨r.map (f n), (mem_outgoing_mapNested hg).mpr ⟨r, n, hr, out, rfl⟩, target,
      (h.leads hr hb).mpr leads⟩

/-- What a run leaves of a window is a rest of it, so that the nested automata answer alike all the
way. -/
theorem runs (h : g.AnswersLike f probe probe' window) (hg : g.Intact) {i : Nat} {c : Config} :
    (g.mapNested f).Runs probe (i, window) c ↔ g.Runs probe' (i, window) c := by
  constructor
  · intro run
    induction run with
    | refl => exact .refl
    | tail before move ih => exact ih.tail ((h.moves hg (Runs.suffix before)).mp move)
  · intro run
    induction run with
    | refl => exact .refl
    | tail before move ih => exact ih.tail ((h.moves hg (Runs.suffix before)).mpr move)

theorem accepts (h : g.AnswersLike f probe probe' window) (hg : g.Intact) {pos : Nat} :
    (g.mapNested f).Accepts probe window pos ↔ g.Accepts probe' window pos := by
  simp only [accepts_iff, h.runs hg]
  rfl

theorem answers (h : g.AnswersLike f probe probe' window) (hg : g.Intact)
    (answers : g.Answers probe' window) : (g.mapNested f).Answers probe window := by
  intro s t ht nested mode negated hc u hu
  obtain ⟨r, n, hr, out, rfl⟩ := (mem_outgoing_mapNested hg).mp ht
  obtain ⟨old, hc', rfl⟩ := Condition.map_eq_check_iff.mp hc
  obtain ⟨found, told⟩ := answers s r out old mode negated hc' u hu
  exact ⟨found, (h r n hr old mode negated hc' u hu).trans told⟩

end AnswersLike

/-- The automaton with every nested automaton replaced in the same way. -/
abbrev replace (f : ν → μ) (g : Graph ν) : Graph μ := g.mapNested fun _ => f

theorem transitions_replace (g : Graph ν) :
    (g.replace f).transitions.toList = g.transitions.toList.map (Transition.map f) := by
  apply List.ext_getElem?
  intro i
  rw [Array.getElem?_toList, getElem?_mapNested, List.getElem?_map, Array.getElem?_toList]

theorem outgoing_replace (g : Graph ν) (s : Nat) :
    (g.replace f).outgoing s = (g.outgoing s).map (Transition.map f) := by
  have states : (g.replace f).states = g.states := rfl
  unfold outgoing
  rw [states]
  split
  · next state _ =>
    rw [List.map_filterMap]
    apply List.filterMap_congr
    intro i _
    rw [getElem?_mapNested]
  · rfl

theorem Intact.replace {g : Graph ν} (h : g.Intact) : (g.replace f).Intact := h.mapNested

theorem moves_replace {g : Graph ν} {a b : Config} :
    (g.replace f).Moves probe a b ↔ g.Moves (fun n => probe (f n)) a b := by
  unfold Moves
  rw [outgoing_replace]
  constructor
  · rintro ⟨_, out, target, leads⟩
    obtain ⟨t, ht, rfl⟩ := List.mem_map.mp out
    exact ⟨t, ht, target, Condition.leads_map.mp leads⟩
  · rintro ⟨t, ht, target, leads⟩
    exact ⟨t.map f, List.mem_map_of_mem ht, target, Condition.leads_map.mpr leads⟩

theorem runs_replace {g : Graph ν} :
    (g.replace f).Runs probe = g.Runs fun n => probe (f n) := by
  unfold Runs
  congr 1
  funext a b
  exact propext moves_replace

theorem accepts_replace {g : Graph ν} {window : List Char} {pos : Nat} :
    (g.replace f).Accepts probe window pos ↔ g.Accepts (fun n => probe (f n)) window pos := by
  rw [accepts_iff, accepts_iff, runs_replace]
  rfl

theorem ends_replace {g : Graph ν} {s : Nat} {u v : List Char} :
    (g.replace f).Ends probe s u v ↔ g.Ends (fun n => probe (f n)) s u v := by
  unfold Ends
  rw [runs_replace]
  rfl

theorem answers_replace {g : Graph ν} {window : List Char} :
    (g.replace f).Answers probe window ↔ g.Answers (fun n => probe (f n)) window := by
  unfold Answers
  constructor
  · intro h s t ht nested mode negated hc
    have member : t.map f ∈ (g.replace f).outgoing s := by
      rw [outgoing_replace]
      exact List.mem_map_of_mem ht
    exact h s _ member (f nested) mode negated (Condition.map_eq_check_iff.mpr ⟨nested, hc, rfl⟩)
  · intro h s t out nested mode negated hc
    rw [outgoing_replace] at out
    obtain ⟨t, ht, rfl⟩ := List.mem_map.mp out
    obtain ⟨old, hc', rfl⟩ := Condition.map_eq_check_iff.mp hc
    exact h s t ht old mode negated hc'

theorem Falters.of_replace {g : Graph ν} {window : List Char} {i : Nat}
    (h : (g.replace f).Falters probe window i) : g.Falters (fun n => probe (f n)) window i := by
  obtain ⟨c, run, _, out, _, mode, negated, e, hc, failed⟩ := h
  rw [runs_replace] at run
  rw [outgoing_replace] at out
  obtain ⟨t, ht, rfl⟩ := List.mem_map.mp out
  obtain ⟨old, hc', rfl⟩ := Condition.map_eq_check_iff.mp hc
  exact ⟨c, run, t, ht, old, mode, negated, e, hc', failed⟩

theorem settles_replace {p : Place} {ts : List (Transition ν)} :
    Settles probe p (ts.map (Transition.map f)) ↔ Settles (fun n => probe (f n)) p ts := by
  unfold Settles Applies
  rw [List.pairwise_map]
  simp only [List.forall_mem_map, Transition.map, Condition.step_map]

theorem advances_replace {g : Graph ν} {earliest : Bool} :
    (g.replace f).Advances probe earliest = g.Advances (fun n => probe (f n)) earliest := by
  funext a b
  unfold Advances
  rw [propext moves_replace]
  rfl

theorem single_replace {g : Graph ν} {earliest : Bool} {window : List Char} {i : Nat} :
    (g.replace f).Single probe earliest window i ↔
      g.Single (fun n => probe (f n)) earliest window i := by
  unfold Single
  rw [advances_replace]
  simp only [outgoing_replace, settles_replace]
  rfl

theorem choose_replace {state : Nat} {p : Place} {taken : Option (Nat × Place)}
    {ts : List (Transition ν)} : choose probe state p taken (ts.map (Transition.map f)) =
      choose (fun n => probe (f n)) state p taken ts := by
  induction ts generalizing taken with
  | nil => rfl
  | cons t rest ih => simp only [List.map_cons, choose, Transition.map, Condition.step_map, ih]

theorem walkFrom_replace {g : Graph ν} {earliest : Bool} {best : Option Nat}
    {seen : Marks g.states.size} {s : Nat} {p : Place} :
    (g.replace f).walkFrom probe earliest best seen s p =
      g.walkFrom (fun n => probe (f n)) earliest best seen s p := by
  have choice (s : Nat) (p : Place) : choose probe s p none ((g.replace f).outgoing s) =
      choose (fun n => probe (f n)) s p none (g.outgoing s) := by
    rw [outgoing_replace, choose_replace]
  fun_induction walkFrom g (fun n => probe (f n)) earliest best seen s p with
  | case1 best seen s p best' stops => exact walkFrom_of_stop stops
  | case2 best seen s p going e he =>
    exact walkFrom_of_error (g := g.replace f) going ((choice s p).trans he)
  | case3 best seen s p best' going he =>
    exact walkFrom_of_end (g := g.replace f) going ((choice s p).trans he)
  | case4 best seen s p best' going next q k lt fresh ih =>
    exact (walkFrom_of_advance (g := g.replace f) going ((choice s p).trans k) lt).trans ih
  | case5 best seen s p best' going next q k notLt old =>
    exact walkFrom_of_old (g := g.replace f) going ((choice s p).trans k) notLt old
  | case6 best seen s p best' going next q k notLt seen' new ih =>
    exact (walkFrom_of_new (g := g.replace f) going ((choice s p).trans k) notLt new).trans ih

/-- To probe what replaces nested automata, along a single way, is to probe them. -/
theorem walk_replace {g : Graph ν} {earliest : Bool} {window : List Char} :
    (g.replace f).walk probe earliest window =
      g.walk (fun n => probe (f n)) earliest window := by
  have initial : (g.replace f).initial = g.initial := rfl
  unfold walk
  rw [initial]
  cases g.initial with
  | none => rfl
  | some s => exact walkFrom_replace

end Graph

namespace Nested

/-- How a search sees a nested automaton: whether running it finds a match. -/
def probe : Probe Nested := fun n => n.trial.run

/-- The checks of an automaton become ready by making each nested automaton ready. -/
theorem ready_eq (g : Automaton) : ready g = g.replace trial := by
  have transitions (ts : List (Transition Nested)) :
      readyList ts = ts.map (Transition.map trial) := by
    induction ts with
    | nil => rfl
    | cons t ts ih =>
      rw [readyList, ih, List.map_cons]
      congr 1
      obtain ⟨⟨source, target, c⟩, deleted⟩ := t
      cases c <;> rfl
  obtain ⟨tag, states, transitions', initial⟩ := g
  have arrays : readyArray transitions' =
      (Graph.replace trial ⟨tag, states, transitions', initial⟩).transitions := by
    apply Array.toList_inj.mp
    rw [Graph.transitions_replace]
    obtain ⟨ts⟩ := transitions'
    exact transitions ts
  rw [ready, arrays]
  rfl

/-- To probe a nested automaton is to search with it for the earliest end. -/
theorem probe_eq (n : Nested) (mode : Mode) (u : List Char) :
    probe n mode u = ((ready n.automaton).search Trial.run mode true u).map Option.isSome := by
  obtain ⟨g⟩ := n
  unfold probe
  rw [trial]
  rfl

end Nested

end PatternAutomata
