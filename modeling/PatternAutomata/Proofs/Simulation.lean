import PatternAutomata.Proofs.Checkpoints
import PatternAutomata.Proofs.Locality
import PatternAutomata.Proofs.Mirrors
import PatternAutomata.Proofs.Visits

/-!
# Machines follow searches

At a place of the window a machine is at the byte offset that comes after the characters consumed so
far, and a step of the one is a step of the other (`advance_eq`), provided that the runner does with
nested automata what searches do. The machine that backtracks has a checkpoint where the search has
tasks, and it has entered what the search has marked. The machine that follows a single way keeps
the states in mind that the search has marked. So both come to what the searches come to
(`Backtracker.outcomeFrom_eq`, `Walker.outcomeFrom_eq`).
-/
namespace PatternAutomata

namespace Input

/-- The byte offset of the text that comes after a number of characters of the window. -/
def offset (input : Input) (window : List Char) (n : Nat) : Nat :=
  input.span.start + byteSize (window.take n)

variable {input : Input} {window : List Char} {k n : Nat}

theorem offset_lt (input : Input) (h : k < n) (le : n ≤ window.length) :
    input.offset window k < input.offset window n := by
  obtain ⟨d, rfl⟩ := Nat.exists_eq_add_of_le (Nat.le_of_lt h)
  have more : 0 < byteSize ((window.drop k).take d) := by
    refine Nat.pos_of_ne_zero fun none => ?_
    have len := congrArg List.length (byteSize_eq_zero.mp none)
    rw [List.length_take, List.length_drop, List.length_nil] at len
    omega
  rw [offset, offset, List.take_add, byteSize_append]
  omega

theorem offset_le_iff (hk : k ≤ window.length) :
    input.offset window k ≤ input.offset window n ↔ k ≤ n := by
  constructor
  · intro le
    by_contra lt
    have := offset_lt input (Nat.lt_of_not_le lt) hk
    omega
  · intro le
    exact Nat.add_le_add_left (byteSize_take_le le) _

theorem offset_inj (hk : k ≤ window.length) (hn : n ≤ window.length) :
    input.offset window k = input.offset window n ↔ k = n := by
  rw [Nat.le_antisymm_iff, offset_le_iff hk, offset_le_iff hn, ← Nat.le_antisymm_iff]

theorem offset_length (hw : input.window? = some window) :
    input.offset window window.length = input.span.stop := by
  rw [offset, List.take_length, (endsAt_window hw).2]

/-- What a search in a window comes to, with byte offsets of the text. -/
def told {α β : Type} (input : Input) (window : List Char) (f : α → β)
    (r : Except SearchError (Option α)) : Except Fault (Option β) :=
  match r with
  | .error e => .error (.failed (e.toError input.span.start window))
  | .ok found => .ok (found.map f)

section
variable {α β : Type} {f : α → β} {r : Except SearchError (Option α)}

theorem told_eq_error_iff {e : Fault} : input.told window f r = .error e ↔
    ∃ e', r = .error e' ∧ .failed (e'.toError input.span.start window) = e := by
  cases r <;> simp [told]

theorem told_eq_ok_iff {found : Option β} : input.told window f r = .ok found ↔
    ∃ x, r = .ok x ∧ x.map f = found := by
  cases r <;> simp [told]

end

end Input

namespace Graph

/-- The runner does with the nested automata what searches of a text do. -/
def Trusts (g : Automaton) (run : Runner) : Prop :=
  ∀ n ∈ g.nested, ∀ mode input,
    run n mode input = (n.automaton.find? mode input).mapError Fault.failed

section
variable {run : Runner} {g : Automaton} {input : Input} {window : List Char} {s : Nat}
  {p q : Place} {t : Transition Nested}

theorem Place.At.le (h : Place.At window p) : p.pos ≤ window.length :=
  h.2 ▸ Nat.le_add_right ..

section
variable (hw : input.window? = some window)
include hw

theorem window?_offset (here : Place.At window p) :
    (input.ahead (input.offset window p.pos)).window? = some p.rest := by
  obtain ⟨text, ⟨start, stop⟩, earliest⟩ := input
  rw [← List.take_append_drop p.pos window, here.drop_eq] at hw
  exact window?_suffix hw

theorem offset_step (here : Place.At window p) {c : Condition Nested}
    (hq : c.step Nested.probe p = .ok (some q)) :
    input.offset window p.pos + (byteSize p.rest - byteSize q.rest) =
      input.offset window q.pos := by
  obtain ⟨taken, same⟩ := (Condition.step_eq_some_iff.mp hq).2.1.suffix
  have first := Input.offset_eq hw here.1 here.2
  have second := Input.offset_eq hw (here.step hq).1 (here.step hq).2
  have size := (Input.endsAt_window hw).2
  obtain ⟨before, rfl⟩ := here.1
  rw [byteSize_append] at size
  rw [← same, byteSize_append] at *
  unfold Input.offset
  omega

/-- A step of a machine at a place is a step of a search there. -/
theorem advance_eq (hg : g.Intact) (trusts : g.Trusts run) (here : Place.At window p)
    (ht : t ∈ g.outgoing s) : t.condition.advance run input (input.offset window p.pos) =
      input.told window (fun q => byteSize p.rest - byteSize q.rest)
        (t.condition.step Nested.probe p) := by
  have told (r : Except SearchError (Option Place)) :
      input.told window (fun q => byteSize p.rest - byteSize q.rest) r =
        (((r.mapError (·.toError input.span.start window)).map
          (Option.map fun q => byteSize p.rest - byteSize q.rest)).mapError Fault.failed) := by
    cases r <;> rfl
  rw [told, step_eq_stepAt hw here]
  have slice : input.slice (input.offset window p.pos) = .ok p.rest := by
    simp only [Input.slice, window?_offset hw here]
  have charAt : input.charAt? (input.span.start + byteSize (window.take p.pos)) =
      p.rest.head? := by
    change (input.ahead (input.offset window p.pos)).window?.bind _ = _
    rw [window?_offset hw here]
    rfl
  have read (test : Char → Bool) :
      Condition.read input (input.offset window p.pos) test =
        .ok ((p.rest.head?.filter test).map Char.utf8Size) := by
    rw [Condition.read, slice]
    rfl
  cases hc : t.condition with
  | char c =>
    rw [Condition.advance, Condition.stepAt, charAt, read]
    rfl
  | set set =>
    rw [Condition.advance, Condition.stepAt, charAt, read]
    rfl
  | sigma => rfl
  | check n mode negated =>
    rw [Condition.advance, Condition.stepAt, trusts n (mem_nested hg ht hc)]
    change _ = Except.mapError _ (Except.map _ (n.automaton.find? mode
      (input.ahead (input.offset window p.pos))))
    cases n.automaton.find? mode (input.ahead (input.offset window p.pos)) <;> rfl

end

end

/-- The checkpoints of a machine stand for the tasks of a search. -/
inductive Pending (g : Automaton) (input : Input) (window : List Char) :
    List Checkpoint → List (Graph.Task Nested) → Prop where
  | nil : Pending g input window [] []
  | cons {stack tasks} (h : Pending g input window stack tasks) {p} (here : Place.At window p)
      (s k : Nat) : Pending g input window (⟨s, input.offset window p.pos, k⟩ :: stack)
        (((g.closed s).leaving.drop k).map (Task.attempt · p) ++ tasks)

end Graph

namespace Backtracker

open PatternAutomata.Graph

/-- The machine is where a search has come to. -/
structure Follows (g : Automaton) (input : Input) (window : List Char) (m : Backtracker)
    (seen : Marks (g.states.size * (window.length + 1))) (best : Option Nat)
    (tasks : List (Graph.Task Nested)) : Prop where
  going : m.outcome = none
  found : m.best = best.map (input.offset window)
  inWindow : ∀ b, best = some b → b ≤ window.length
  visited : ∀ s, s < g.states.size → ∀ k, k ≤ window.length →
    ((s, input.offset window k) ∈ m.visited ↔ seen.contains (k * g.states.size + s) = true)
  pending : Pending g input window m.stack tasks

/-- The machine has come to what a search comes to, or is on the way to it. -/
inductive Tracks (g : Automaton) (input : Input) (window : List Char)
    (value : Except SearchError (Option Nat)) (m : Backtracker) : Prop where
  | halted (h : m.outcome = some (input.told window (input.offset window) value))
  | going {seen : Marks (g.states.size * (window.length + 1))} {best tasks}
      (follows : Follows g input window m seen best tasks)
      (same : explore g.closures Nested.probe input.earliest seen best tasks = value)

section
variable {run : Runner} {g : Automaton} {input : Input} {window : List Char} {m : Backtracker}
  {s i : Nat} {p : Place} {seen seen' : Marks (g.states.size * (window.length + 1))}
  {best : Option Nat} {tasks : List (Graph.Task Nested)}
  {value : Except SearchError (Option Nat)}

namespace Follows

theorem isLate_eq (h : Follows g input window m seen best tasks) :
    m.isLate input (input.offset window p.pos) = Graph.isLate input.earliest best p := by
  unfold isLate Graph.isLate
  rw [h.found]
  cases best with
  | none => rfl
  | some b => simp only [Option.map_some, Option.any_some, Input.offset_le_iff (h.inWindow b rfl)]

/-- The machine puts a configuration down as visited when the search marks it. -/
theorem marked (h : Follows g input window m seen best tasks) (here : Place.At window p)
    (lt : s < g.states.size) (new : seen.mark? (p.pos * g.states.size + s) = some seen') :
    Follows g input window { m with visited := (s, input.offset window p.pos) :: m.visited }
      seen' best tasks := by
  refine { h with visited := fun r hr k hk => ?_ }
  rw [Marks.contains_iff_of_mark? new, key_inj hr lt, List.mem_cons, Prod.mk.injEq,
    Input.offset_inj hk here.le, h.visited r hr k hk]
  exact or_congr_left and_comm

theorem later (h : Follows g input window m seen best tasks) (here : Place.At window p) :
    Follows g input window { m with best := Graph.later m.best (input.offset window p.pos) } seen
      (Graph.later best p.pos) tasks := by
  cases best with
  | none =>
    refine { h with found := ?_, inWindow := ?_ }
    · simp only [h.found, Option.map_none, Graph.later, Option.map_some]
    · rintro _ ⟨⟩
      exact here.le
  | some b =>
    have hb := h.inWindow b rfl
    refine { h with found := ?_, inWindow := ?_ }
    · simp only [h.found, Graph.later, Option.map_some, Option.some.injEq]
      rcases Nat.le_total b p.pos with le | le
      · rw [max_eq_right le, max_eq_right ((Input.offset_le_iff hb).mpr le)]
      · rw [max_eq_left le, max_eq_left ((Input.offset_le_iff here.le).mpr le)]
    · rintro _ ⟨⟩
      exact Nat.max_le.mpr ⟨hb, here.le⟩

theorem push (h : Follows g input window m seen best tasks) (here : Place.At window p) (s : Nat) :
    Follows g input window { m with stack := ⟨s, input.offset window p.pos, 0⟩ :: m.stack } seen
      best ((g.closed s).leaving.map (Task.attempt · p) ++ tasks) :=
  { h with pending := h.pending.cons here s 0 }

/-- The machine enters a state where the search does. -/
theorem enter (h : Follows g input window m seen best tasks)
    (hw : input.window? = some window) (here : Place.At window p) (lt : s < g.states.size) :
    Tracks g input window
      (explore g.closures Nested.probe input.earliest seen best (.enter s p :: tasks))
      (enter g input m s (input.offset window p.pos)) := by
  have late := h.isLate_eq (p := p)
  have visited := h.visited s lt p.pos here.le
  unfold Backtracker.enter
  by_cases isLate : Graph.isLate input.earliest best p = true
  · have idle : (Task.enter s p).Idle g Nested.probe input.earliest seen best := Or.inl isLate
    rw [explore_idle idle, if_pos (late.trans isLate)]
    exact .going h rfl
  rw [if_neg (late ▸ isLate)]
  cases new : seen.mark? (p.pos * g.states.size + s) with
  | none =>
    have old := Marks.mark?_eq_none_iff.mp new (key_lt lt here)
    have idle : (Task.enter s p).Idle g Nested.probe input.earliest seen best := Or.inr new
    rw [explore_idle idle, if_pos (visited.mpr old)]
    exact .going h rfl
  | some seen' =>
    have fresh : ¬ seen.contains (p.pos * g.states.size + s) = true := by
      rw [(Marks.lt_of_mark? new).2]
      exact Bool.false_ne_true
    have first : input.offset window p.pos = input.span.start ↔ p.pos = 0 :=
      Input.offset_inj (n := 0) here.le (Nat.zero_le _)
    have last : input.offset window p.pos = input.span.stop ↔ p.rest.isEmpty = true := by
      rw [← Input.offset_length hw, Input.offset_inj here.le (Nat.le_refl _), List.isEmpty_iff,
        ← List.length_eq_zero_iff]
      have := here.2
      omega
    have marked := h.marked here lt new
    rw [explore_enter isLate new, if_neg (mt visited.mp fresh)]
    simp only [first, last]
    split_ifs with accepting early zero empty
    · refine .halted ?_
      rw [first.mpr zero]
      rfl
    · refine .going { marked with found := rfl, inWindow := ?_ } rfl
      rintro _ ⟨⟩
      exact here.le
    · exact .halted (congrArg (some ∘ Except.ok) (marked.later here).found)
    · exact .going ((marked.later here).push here s) rfl
    · exact .going (marked.push here s) rfl

/-- The checkpoint on top stands for transitions that are still to be tried. -/
theorem top (h : Follows g input window m seen best tasks) {top : Checkpoint}
    {rest : List Checkpoint} (stack : m.stack = top :: rest) :
    ∃ p more, Place.At window p ∧ top.offset = input.offset window p.pos ∧
      Pending g input window rest more ∧
        tasks = ((g.closed top.state).leaving.drop top.next).map (Task.attempt · p) ++ more := by
  have pending := h.pending
  rw [stack] at pending
  cases pending with
  | cons more here s k => exact ⟨_, _, here, rfl, more, rfl⟩

/-- The machine tries a transition where the search does. -/
theorem tries (h : Follows g input window m seen best tasks) {top : Checkpoint}
    {rest : List Checkpoint} (stack : m.stack = top :: rest)
    (timely : ¬ m.isLate input top.offset = true) {t : Transition Nested}
    (next : (g.closed top.state).leaving[top.next]? = some t) :
    ∃ p more, Place.At window p ∧ top.offset = input.offset window p.pos ∧
      ¬ Graph.isLate input.earliest best p = true ∧
        Follows g input window (m.tries top rest) seen best more ∧
          tasks = .attempt t p :: more := by
  obtain ⟨p, more, here, offset, pending, rfl⟩ := h.top stack
  have pending' := pending.cons here top.state (top.next + 1)
  refine ⟨p, _, here, offset, ?_, { h with pending := offset ▸ pending' }, ?_⟩
  · rwa [offset, h.isLate_eq] at timely
  · rw [List.drop_eq_getElem?_toList_append, next]
    rfl

end Follows

theorem explore_idles {idle more : List (Graph.Task Nested)}
    (h : ∀ task ∈ idle, task.Idle g Nested.probe input.earliest seen best) :
    explore g.closures Nested.probe input.earliest seen best (idle ++ more) =
      explore g.closures Nested.probe input.earliest seen best more := by
  induction idle with
  | nil => rfl
  | cons task idle ih =>
    obtain ⟨first, others⟩ := List.forall_mem_cons.mp h
    exact (explore_idle first).trans (ih others)

/-- The machine keeps track of the search. -/
theorem Tracks.step (hg : g.Intact) (hw : input.window? = some window) (trusts : g.Trusts run)
    (going : m.outcome = none) (h : Tracks g input window value m) :
    Tracks g input window value (step run g input m) := by
  rcases h with halted | ⟨h, same⟩
  · cases going.symm.trans halted
  have goes := goes_step run g input m
  generalize Backtracker.step run g input m = m' at goes
  cases goes with
  | finish empty =>
    have pending := h.pending
    rw [empty] at pending
    cases pending
    rw [explore] at same
    rw [← same]
    exact .halted (congrArg (some ∘ Except.ok) h.found)
  | late stack late =>
    obtain ⟨p, more, here, offset, pending, rfl⟩ := h.top stack
    rw [offset, h.isLate_eq] at late
    refine .going { h with pending := pending } (same ▸ (explore_idles fun task ht => ?_).symm)
    obtain ⟨t, -, rfl⟩ := List.mem_map.mp ht
    exact Or.inl late
  | spent stack spent =>
    obtain ⟨p, more, here, offset, pending, rfl⟩ := h.top stack
    rw [List.drop_eq_nil_of_le (List.getElem?_eq_none_iff.mp spent)] at same
    exact .going { h with pending := pending } same
  | @fail top rest t e stack timely next failed =>
    obtain ⟨p, more, here, offset, timely, follows, rfl⟩ := h.tries stack timely next
    obtain ⟨r, out⟩ := mem_outgoing_of_leaving (List.mem_of_getElem? next)
    rw [offset, advance_eq hw hg trusts here out] at failed
    obtain ⟨e, step, rfl⟩ := Input.told_eq_error_iff.mp failed
    rw [explore, if_neg timely, step] at same
    rw [← same]
    exact .halted rfl
  | @miss top rest t stack timely next fails =>
    obtain ⟨p, more, here, offset, timely, follows, rfl⟩ := h.tries stack timely next
    obtain ⟨r, out⟩ := mem_outgoing_of_leaving (List.mem_of_getElem? next)
    rw [offset, advance_eq hw hg trusts here out] at fails
    obtain ⟨_, step, none⟩ := Input.told_eq_ok_iff.mp fails
    cases Option.map_eq_none_iff.mp none
    rw [explore, if_neg timely, step] at same
    exact .going follows same
  | @enter top rest t width stack timely next holds =>
    obtain ⟨p, more, here, offset, timely, follows, rfl⟩ := h.tries stack timely next
    obtain ⟨r, out⟩ := mem_outgoing_of_leaving (List.mem_of_getElem? next)
    rw [offset, advance_eq hw hg trusts here out] at holds
    obtain ⟨_, step, found⟩ := Input.told_eq_ok_iff.mp holds
    obtain ⟨q, rfl, rfl⟩ := Option.map_eq_some_iff.mp found
    rw [explore, if_neg timely, step] at same
    rw [offset, offset_step hw here step, ← same]
    exact follows.enter hw (here.step step) (hg.isLive_target out).lt

theorem tracks_start (hg : g.Intact) (initial : g.initial = some i)
    (hw : input.window? = some window) : Tracks g input window
      (g.backtrack Nested.probe input.earliest window) (start g input i) := by
  have blank : Follows g input window ⟨[], [], [], none, none⟩ (Marks.empty _) none [] :=
    ⟨rfl, rfl, by simp, by simp [Marks.contains_empty], .nil⟩
  rw [backtrack, initial]
  exact blank.enter hw ⟨List.suffix_rfl, Nat.zero_add _⟩ (hg.initial_live i initial).lt

/-- The machine comes to what a search by backtracking comes to. -/
theorem outcomeFrom_eq (hg : g.Intact) (initial : g.initial = some i)
    (hw : input.window? = some window) (trusts : g.Trusts run) :
    g.outcomeFrom run input .nfa i = input.told window (input.offset window)
      (g.backtrack Nested.probe input.earliest window) := by
  have valid : input.isValid = true := by
    rw [Input.isValid, hw]
    rfl
  obtain ⟨n, m, -, steps, halts⟩ := halts run hg (hg.initial_live i initial) valid
  have tracks : Tracks g input window (g.backtrack Nested.probe input.earliest window) m :=
    steps.induct (P := fun _ => Tracks g input window _) (tracks_start hg initial hw)
      fun _ _ going tracks => tracks.step hg hw trusts going
  cases tracks with
  | halted same => exact Option.some.inj (halts.symm.trans same)
  | going follows => cases halts.symm.trans follows.going

end

end Backtracker

namespace Walker

open PatternAutomata.Graph

/-- The machine is where a search has come to. -/
structure Follows (g : Automaton) (input : Input) (window : List Char) (m : Walker)
    (best : Option Nat) (seen : Marks g.states.size) (p : Place) : Prop where
  going : m.outcome = none
  found : m.best = best.map (input.offset window)
  here : Place.At window p
  offset : m.offset = input.offset window p.pos
  marked : ∀ r, r < g.states.size → (seen.contains r = true ↔ r ∈ m.state :: m.seen)

/-- The machine has come to what a search comes to, or is on the way to it. -/
inductive Tracks (g : Automaton) (input : Input) (window : List Char)
    (value : Except SearchError (Option Nat)) (m : Walker) : Prop where
  | halted (h : m.outcome = some (input.told window (input.offset window) value))
  | going {best seen p} (follows : Follows g input window m best seen p)
      (same : g.walkFrom Nested.probe input.earliest best seen m.state p = value)

/-- The bytes that are consumed from a place on. -/
def width (p : Place) (c : Nat × Place) : Nat × Nat := (c.1, byteSize p.rest - byteSize c.2.rest)

section
variable {run : Runner} {g : Automaton} {input : Input} {window : List Char} {m : Walker}
  {s i next w : Nat} {p : Place} {seen : Marks g.states.size} {best : Option Nat}
  {value : Except SearchError (Option Nat)}

theorem pick_eq (hg : g.Intact) (hw : input.window? = some window) (trusts : g.Trusts run)
    (here : Place.At window p) {ts : List (Transition Nested)}
    (out : ∀ t ∈ ts, t ∈ g.outgoing s) (taken : Option (Nat × Place)) :
    pick run input s (input.offset window p.pos) (taken.map (width p)) ts =
      input.told window (width p) (choose Nested.probe s p taken ts) := by
  induction ts generalizing taken with
  | nil => rfl
  | cons t rest ih =>
    obtain ⟨first, others⟩ := List.forall_mem_cons.mp out
    rw [pick, advance_eq hw hg trusts here first, choose]
    cases t.condition.step Nested.probe p with
    | error e => rfl
    | ok r =>
      cases r with
      | none => exact ih others taken
      | some q =>
        cases taken with
        | some _ => rfl
        | none => exact ih others (some (t.target, q))

namespace Follows

theorem choice_eq (h : Follows g input window m best seen p) (hg : g.Intact)
    (hw : input.window? = some window) (trusts : g.Trusts run) : m.choice run g input =
      input.told window (width p) (choose Nested.probe m.state p none (g.outgoing m.state)) := by
  rw [choice, h.offset]
  exact pick_eq hg hw trusts h.here (fun _ => id) none

/-- What the machine chooses is what the search chooses. -/
theorem chosen (h : Follows g input window m best seen p) (hg : g.Intact)
    (hw : input.window? = some window) (trusts : g.Trusts run)
    (chosen : m.choice run g input = .ok (some (next, w))) :
    ∃ q, choose Nested.probe m.state p none (g.outgoing m.state) = .ok (some (next, q)) ∧
      Place.At window q ∧ m.offset + w = input.offset window q.pos ∧
        next < g.states.size ∧ (w = 0 ↔ ¬ p.pos < q.pos) := by
  rw [h.choice_eq hg hw trusts] at chosen
  obtain ⟨_, choice, found⟩ := Input.told_eq_ok_iff.mp chosen
  obtain ⟨⟨r, q⟩, rfl, same⟩ := Option.map_eq_some_iff.mp found
  cases same
  obtain ⟨t, ht, rfl, step⟩ := exists_of_choose choice
  have there := h.here.step step
  have offset := offset_step hw h.here step
  refine ⟨q, choice, there, h.offset ▸ offset, (hg.isLive_target ht).lt, ?_⟩
  constructor
  · intro zero lt
    have more := Input.offset_lt input lt there.le
    change byteSize p.rest - byteSize q.rest = 0 at zero
    omega
  · intro notLt
    cases eq_of_step_of_not_lt step notLt
    exact Nat.sub_self _

theorem bestAt_eq (h : Follows g input window m best seen p) :
    (m.visit g).best = (g.bestAt best m.state p.pos).map (input.offset window) := by
  unfold visit bestAt
  split
  · exact congrArg some h.offset
  · exact h.found

end Follows

/-- The machine keeps track of the search. -/
theorem Tracks.step (hg : g.Intact) (hw : input.window? = some window) (trusts : g.Trusts run)
    (going : m.outcome = none) (h : Tracks g input window value m) :
    Tracks g input window value (step run g input m) := by
  rcases h with halted | @⟨best, seen, p, h, same⟩
  · cases going.symm.trans halted
  have goes := goes_step run g input m
  generalize Walker.step run g input m = m' at goes
  have bestAt := congrArg (some ∘ Except.ok (ε := Fault)) h.bestAt_eq
  cases goes with
  | stop stop =>
    rw [walkFrom_of_stop stop] at same
    rw [← same]
    exact .halted bestAt
  | @fail e going failed =>
    rw [h.choice_eq hg hw trusts] at failed
    obtain ⟨e, chosen, rfl⟩ := Input.told_eq_error_iff.mp failed
    rw [walkFrom_of_error going chosen] at same
    rw [← same]
    exact .halted rfl
  | finish going none =>
    rw [h.choice_eq hg hw trusts] at none
    obtain ⟨_, chosen, none⟩ := Input.told_eq_ok_iff.mp none
    cases Option.map_eq_none_iff.mp none
    rw [walkFrom_of_end going chosen] at same
    rw [← same]
    exact .halted bestAt
  | @circle next going chosen old =>
    obtain ⟨q, chosen, there, offset, lt, zero⟩ := h.chosen hg hw trusts chosen
    have known := Marks.mark?_eq_none_iff.mpr fun _ => (h.marked next lt).mpr old
    rw [walkFrom_of_old going chosen (zero.mp rfl) known] at same
    rw [← same]
    exact .halted bestAt
  | @glide next going chosen new =>
    obtain ⟨q, chosen, there, offset, lt, zero⟩ := h.chosen hg hw trusts chosen
    have free := Bool.eq_false_iff.mpr (mt (h.marked next lt).mp new)
    obtain ⟨seen', new'⟩ := Marks.exists_mark? lt free
    rw [walkFrom_of_new going chosen (zero.mp rfl) new'] at same
    refine .going { h with found := h.bestAt_eq, marked := fun r hr => ?_ } same
    rw [Marks.contains_iff_of_mark? new', h.marked r hr]
    exact List.mem_cons.symm
  | @advance next w going chosen consumes =>
    obtain ⟨q, chosen, there, offset, lt, zero⟩ := h.chosen hg hw trusts chosen
    rw [walkFrom_of_advance going chosen (not_not.mp (mt zero.mpr consumes))] at same
    refine .going ⟨h.going, h.bestAt_eq, there, offset, fun r hr => ?_⟩ same
    obtain ⟨seen', new⟩ := Marks.exists_mark? lt (Marks.contains_empty next)
    rw [new, Option.getD_some, Marks.contains_iff_of_mark? new, Marks.contains_empty]
    simp

theorem tracks_start (hg : g.Intact) (initial : g.initial = some i) : Tracks g input window
    (g.walk Nested.probe input.earliest window) (start input i) := by
  obtain ⟨seen, new⟩ :=
    Marks.exists_mark? (hg.initial_live i initial).lt (Marks.contains_empty i)
  have follows : Follows g input window (start input i) none
      (((Marks.empty g.states.size).mark? i).getD (Marks.empty _)) ⟨0, window⟩ := by
    refine ⟨rfl, rfl, ⟨List.suffix_rfl, Nat.zero_add _⟩, rfl, fun r _ => ?_⟩
    rw [new, Option.getD_some, Marks.contains_iff_of_mark? new, Marks.contains_empty]
    simp [start]
  refine .going follows ?_
  rw [walk, initial]
  rfl

/-- The machine comes to what a search along a single way comes to. -/
theorem outcomeFrom_eq {mode : Mode} (h : mode ≠ .nfa) (hg : g.Intact)
    (initial : g.initial = some i) (hw : input.window? = some window) (trusts : g.Trusts run) :
    g.outcomeFrom run input mode i = input.told window (input.offset window)
      (g.walk Nested.probe input.earliest window) := by
  have valid : input.isValid = true := by
    rw [Input.isValid, hw]
    rfl
  obtain ⟨n, m, -, steps, halts⟩ := halts run h hg (hg.initial_live i initial) valid
  have tracks : Tracks g input window (g.walk Nested.probe input.earliest window) m :=
    steps.induct (P := fun _ => Tracks g input window _) (tracks_start hg initial)
      fun _ _ going tracks => tracks.step hg hw trusts going
  cases tracks with
  | halted same => exact Option.some.inj (halts.symm.trans same)
  | going follows => cases halts.symm.trans follows.going

end

end Walker

end PatternAutomata
