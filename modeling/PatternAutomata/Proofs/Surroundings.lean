import PatternAutomata.Proofs.Machines

/-!
# Machines in their surroundings

The text inside a span can be searched on its own. A machine that searches the span goes through the
same configurations as one that searches the text inside, with all byte offsets moved by the start
of the span (`execute_of_displays`): it reads the text only where the span shows it, and so do the
machines that it runs for nested automata.
-/
namespace PatternAutomata

/-- The error with its byte offset moved. -/
def Error.shift (n : Nat) : Error → Error
  | ambiguous state offset => ambiguous state (n + offset)
  | e => e

/-- What a search comes to, seen in a text in which the searched text comes after `n` bytes. -/
def relocate (text : String) (n : Nat) :
    Except Error (Option Match) → Except Error (Option Match)
  | .error e => .error (e.shift n)
  | .ok found => .ok (found.map fun m => ⟨text, ⟨n + m.span.start, n + m.span.stop⟩⟩)

/-- The fault with its byte offset moved. -/
def Fault.shift (n : Nat) : Fault → Fault
  | failed e => failed (e.shift n)
  | cut i => cut (n + i)
  | unfinished => unfinished

/-- What an execution comes to, seen in a text in which the searched text comes after `n` bytes. -/
def relocateRun (text : String) (n : Nat) :
    Except Fault (Option Match) → Except Fault (Option Match)
  | .error e => .error (e.shift n)
  | .ok found => .ok (found.map fun m => ⟨text, ⟨n + m.span.start, n + m.span.stop⟩⟩)

/-- What a machine comes to, with the byte offsets moved. -/
def Outcome.shift (n : Nat) (o : Outcome) : Outcome :=
  (o.mapError (Fault.shift n)).map (Option.map (n + ·))

namespace Input

/-- The text inside the span. -/
def inside (input : Input) : String := String.ofList (input.window?.getD [])

/-- The same search of the text inside the span, with nothing around it. -/
def alone (input : Input) : Input :=
  ⟨input.inside, ⟨0, input.inside.utf8ByteSize⟩, input.earliest⟩

variable {input input' : Input} {window u : List Char} {i n : Nat}

theorem toList_inside (hw : input.window? = some window) : input.inside.toList = window := by
  rw [inside, hw, Option.getD_some, String.toList_ofList]

/-- The text inside the span stands in the text where the span says. -/
theorem text_eq (hw : input.window? = some window) : ∃ before after,
    input.text = before ++ input.inside ++ after ∧ before.utf8ByteSize = input.span.start ∧
      (before ++ input.inside).utf8ByteSize = input.span.stop := by
  obtain ⟨before, after, split, start, stop⟩ := window?_eq_some_iff.mp hw
  refine ⟨.ofList before, .ofList after, ?_, ?_, ?_⟩
  · apply String.toList_injective
    simp [toList_inside hw, split]
  · rw [← byteSize_toList, String.toList_ofList, start]
  · rw [← byteSize_toList, String.toList_append, String.toList_ofList, toList_inside hw, stop]

theorem window?_alone (hw : input.window? = some window) : input.alone.window? = some window := by
  refine window?_eq_some_iff.mpr ⟨[], [], ?_, rfl, ?_⟩
  · simp [alone, toList_inside hw]
  · rw [List.nil_append, ← toList_inside hw]
    exact byteSize_toList input.inside

/-- What a check looks at from an offset in the span is what is left of the window. -/
theorem suffix_of_ahead (hw : input.window? = some window) (le : input.span.start ≤ i)
    (hu : (input.ahead i).window? = some u) :
    ∃ taken, window = taken ++ u ∧ i = input.span.start + byteSize taken := by
  obtain ⟨before, after, split, start, stop⟩ := window?_eq_some_iff.mp hw
  obtain ⟨before', after', split', start', stop'⟩ := window?_eq_some_iff.mp hu
  -- Both the span and its rest end at the same offset.
  obtain ⟨same, -⟩ := append_unique (split.symm.trans split') (stop.trans stop'.symm)
  simp only [ahead] at start'
  rcases List.append_eq_append_iff.mp same with ⟨taken, rfl, rest⟩ | ⟨over', rfl, rest⟩
  · refine ⟨taken, rest, ?_⟩
    rw [← start', byteSize_append, start]
  · rw [byteSize_append] at start
    have none : over' = [] := byteSize_eq_zero.mp (by omega)
    subst none
    exact ⟨[], rest.symm, by simp [byteSize]; omega⟩

/-- The first search sees at offsets moved by `n` what the second one sees. -/
structure Displays (n : Nat) (input input' : Input) : Prop where
  start : input.span.start = n + input'.span.start
  stop : input.span.stop = n + input'.span.stop
  earliest : input.earliest = input'.earliest
  ahead : ∀ i, input'.span.start ≤ i →
    (input.ahead (n + i)).window? = (input'.ahead i).window?

/-- What can be seen from an offset on. -/
theorem window?_ahead_iff (hw : input.window? = some window) (le : input.span.start ≤ i) :
    (input.ahead i).window? = some u ↔
      ∃ taken, window = taken ++ u ∧ i = input.span.start + byteSize taken := by
  constructor
  · exact suffix_of_ahead hw le
  · rintro ⟨taken, rfl, rfl⟩
    exact window?_suffix hw

/-- Two spans around the same window show the same. -/
theorem displays_of_window? (hw : input.window? = some window)
    (hw' : input'.window? = some window) (start : input.span.start = n + input'.span.start)
    (earliest : input.earliest = input'.earliest) : input.Displays n input' where
  start := start
  stop := by
    obtain ⟨before, after, -, size, stop⟩ := window?_eq_some_iff.mp hw
    obtain ⟨before', after', -, size', stop'⟩ := window?_eq_some_iff.mp hw'
    rw [byteSize_append] at stop stop'
    omega
  earliest := earliest
  ahead i le := by
    refine Option.ext fun u => ?_
    rw [window?_ahead_iff hw (by omega), window?_ahead_iff hw' le]
    refine exists_congr fun taken => and_congr_right fun _ => ?_
    omega

theorem displays_alone (valid : input.isValid = true) :
    input.Displays input.span.start input.alone := by
  obtain ⟨window, hw⟩ := Option.isSome_iff_exists.mp valid
  exact displays_of_window? hw (window?_alone hw) rfl rfl

namespace Displays

variable (h : input.Displays n input')

include h

theorem window?_eq : input.window? = input'.window? := by
  have same := h.ahead input'.span.start (Nat.le_refl _)
  rw [← h.start] at same
  exact same

theorem isValid_eq : input.isValid = input'.isValid := congrArg Option.isSome h.window?_eq

/-- From an offset on, the same is seen again. -/
theorem rest (le : input'.span.start ≤ i) : (input.ahead (n + i)).Displays n (input'.ahead i) where
  start := rfl
  stop := h.stop
  earliest := rfl
  ahead j later := h.ahead j (Nat.le_trans le later)

theorem slice_eq (le : input'.span.start ≤ i) :
    input.slice (n + i) = (input'.slice i).mapError (Fault.shift n) := by
  rw [slice, slice, h.ahead i le]
  cases (input'.ahead i).window? with
  | some rest => rfl
  | none => rfl

theorem boundaries_eq : input.boundaries = input'.boundaries.map (n + ·) := by
  have before : (List.range n).filter (fun i => input.span.start ≤ i && (input.ahead i).isValid) =
      [] := by
    refine List.filter_eq_nil_iff.mpr fun i hi => ?_
    have lt := List.mem_range.mp hi
    have start := h.start
    simp only [Bool.and_eq_true, decide_eq_true_eq, not_and]
    omega
  have within (i : Nat) : (decide (input.span.start ≤ n + i) && (input.ahead (n + i)).isValid) =
      (decide (input'.span.start ≤ i) && (input'.ahead i).isValid) := by
    rw [h.start]
    by_cases le : input'.span.start ≤ i
    · simp [le, (h.rest le).isValid_eq]
    · simp [le]
  rw [boundaries, h.stop, Nat.add_assoc, List.range_add, List.filter_append, before,
    List.nil_append, List.filter_map, boundaries]
  exact congrArg (List.map (n + ·)) (List.filter_congr fun i _ => within i)

end Displays

end Input

/-- A runner that sees nothing but what the span shows. -/
def Runner.Blind (run : Runner) : Prop :=
  ∀ n input input', input.Displays n input' → ∀ nested mode,
    run nested mode input = relocateRun input.text n (run nested mode input')

section
variable {run : Runner} {g : Automaton} {input input' : Input} {n s i : Nat}

theorem Condition.advance_of_displays (h : input.Displays n input') (blind : run.Blind)
    (le : input'.span.start ≤ i) (c : Condition Nested) :
    c.advance run input (n + i) = (c.advance run input' i).mapError (Fault.shift n) := by
  have read (test : Char → Bool) :
      Condition.read input (n + i) test =
        (Condition.read input' i test).mapError (Fault.shift n) := by
    rw [Condition.read, Condition.read, h.slice_eq le]
    cases input'.slice i with
    | ok rest => rfl
    | error e => rfl
  cases c with
  | char c => exact read _
  | set s => exact read _
  | sigma => rfl
  | check nested mode negated =>
    rw [Condition.advance, Condition.advance, blind n _ _ (h.rest le) nested mode]
    cases run nested mode (input'.ahead i) with
    | error e => rfl
    | ok found => cases found with
      | none => rfl
      | some m => rfl

/-- A machine whose steps are those of another one with the offsets moved comes to the same, with
the offset moved. -/
theorem drive_shift {σ : Type} {step step' : σ → σ} {outcome : σ → Option Outcome} {shift : σ → σ}
    {P : σ → Prop} (keeps : ∀ m, P m → P (step' m))
    (moves : ∀ m, P m → step (shift m) = shift (step' m))
    (outcomes : ∀ m, outcome (shift m) = (outcome m).map (Outcome.shift n)) (k : Nat) {m : σ}
    (hm : P m) : drive step outcome k (shift m) = (drive step' outcome k m).shift n := by
  induction k generalizing m with
  | zero =>
    rw [drive, drive, outcomes]
    cases outcome m with
    | none => rfl
    | some o => rfl
  | succ k ih =>
    rw [drive, drive, outcomes, moves m hm, ih (keeps m hm)]
    cases outcome m with
    | none => rfl
    | some o => rfl

namespace Backtracker

def shift (n : Nat) (m : Backtracker) : Backtracker where
  visited := m.visited.map (Prod.map id (n + ·))
  tried := m.tried.map (Prod.map (Prod.map id (n + ·)) id)
  stack := m.stack.map fun c => { c with offset := n + c.offset }
  best := m.best.map (n + ·)
  outcome := m.outcome.map (Outcome.shift n)

/-- No checkpoint is in front of the span. -/
def StaysIn (input : Input) (m : Backtracker) : Prop :=
  ∀ c ∈ m.stack, input.span.start ≤ c.offset

variable {m : Backtracker}

theorem isLate_shift (h : input.Displays n input') (m : Backtracker) (i : Nat) :
    (m.shift n).isLate input (n + i) = m.isLate input' i := by
  rw [isLate, isLate, shift, h.earliest]
  cases m.best with
  | none => rfl
  | some b => simp

theorem mem_visited_shift (m : Backtracker) :
    (s, n + i) ∈ (m.shift n).visited ↔ (s, i) ∈ m.visited := by
  simp [shift, Prod.map]

theorem later_shift (best : Option Nat) (n i : Nat) :
    Graph.later (best.map (n + ·)) (n + i) = (Graph.later best i).map (n + ·) := by
  cases best with
  | none => rfl
  | some b => simp [Graph.later, Nat.add_max_add_left]

theorem enter_shift (h : input.Displays n input') (m : Backtracker) (s i : Nat) :
    enter g input (m.shift n) s (n + i) = (enter g input' m s i).shift n := by
  have start : n + i = input.span.start ↔ i = input'.span.start := by
    rw [h.start]
    omega
  have stop : n + i = input.span.stop ↔ i = input'.span.stop := by
    rw [h.stop]
    omega
  simp only [enter, isLate_shift h, mem_visited_shift, h.earliest, start, stop]
  split_ifs
  all_goals first
    | rfl
    | simp [shift, later_shift, Outcome.shift, Except.map, Except.mapError]

theorem StaysIn.enter (stays : m.StaysIn input) (le : input.span.start ≤ i) :
    (enter g input m s i).StaysIn input := by
  have added : ∀ c ∈ (⟨s, i, 0⟩ : Checkpoint) :: m.stack, input.span.start ≤ c.offset :=
    List.forall_mem_cons.mpr ⟨le, stays⟩
  unfold Backtracker.enter
  split_ifs
  all_goals first | exact stays | exact added

variable (g) in
theorem StaysIn.step (stays : m.StaysIn input) : (step run g input m).StaysIn input := by
  unfold Backtracker.step
  cases stack : m.stack with
  | nil => exact fun c hc => absurd hc List.not_mem_nil
  | cons top rest =>
    have all : ∀ c ∈ top :: rest, input.span.start ≤ c.offset := stack ▸ stays
    obtain ⟨own, others⟩ := List.forall_mem_cons.mp all
    have tried : (m.tries top rest).StaysIn input := List.forall_mem_cons.mpr ⟨own, others⟩
    simp only
    split_ifs
    · exact others
    · split
      · exact others
      · split
        · exact tried
        · exact tried
        · exact tried.enter (Nat.le_trans own (Nat.le_add_right ..))

theorem step_shift (h : input.Displays n input') (blind : run.Blind) (stays : m.StaysIn input') :
    step run g input (m.shift n) = (step run g input' m).shift n := by
  cases stack : m.stack with
  | nil => simp [step, shift, stack, Outcome.shift, Except.map, Except.mapError]
  | cons top rest =>
    have own : input'.span.start ≤ top.offset := stays top (stack ▸ List.mem_cons_self ..)
    have shifted : (m.shift n).stack = { top with offset := n + top.offset } ::
        rest.map fun c => { c with offset := n + c.offset } := by
      rw [shift, stack]
      rfl
    have tries : (m.shift n).tries { top with offset := n + top.offset }
        (rest.map fun c => { c with offset := n + c.offset }) = (m.tries top rest).shift n := rfl
    simp only [step, shifted, stack, isLate_shift h, tries]
    split_ifs
    · rfl
    · cases (g.closed top.state).leaving[top.next]? with
      | none => rfl
      | some t =>
        simp only [t.condition.advance_of_displays h blind own]
        cases t.condition.advance run input' top.offset with
        | error e => rfl
        | ok width =>
          cases width with
          | none => rfl
          | some width =>
            have moved := enter_shift (g := g) h (m.tries top rest) t.target (top.offset + width)
            rwa [← Nat.add_assoc] at moved

theorem start_shift (h : input.Displays n input') (s : Nat) :
    start g input s = (start g input' s).shift n := by
  rw [start, start, h.start]
  exact enter_shift h ⟨[], [], [], none, none⟩ s input'.span.start

end Backtracker

namespace Walker

def shift (n : Nat) (m : Walker) : Walker where
  trail := m.trail.map (Prod.map id (n + ·))
  state := m.state
  offset := n + m.offset
  seen := m.seen
  best := m.best.map (n + ·)
  outcome := m.outcome.map (Outcome.shift n)

variable {m : Walker}

theorem pick_shift (h : input.Displays n input') (blind : run.Blind)
    (le : input'.span.start ≤ i) (taken : Option (Nat × Nat)) (ts : List (Transition Nested)) :
    pick run input s (n + i) taken ts =
      (pick run input' s i taken ts).mapError (Fault.shift n) := by
  induction ts generalizing taken with
  | nil => rfl
  | cons t ts ih =>
    rw [pick, pick, t.condition.advance_of_displays h blind le]
    cases t.condition.advance run input' i with
    | error e => rfl
    | ok width =>
      cases width with
      | none => exact ih taken
      | some width =>
        cases taken with
        | none => exact ih _
        | some _ => rfl

theorem visit_shift (m : Walker) : (m.shift n).visit g = (m.visit g).shift n := by
  unfold visit
  cases accepts : g.isAccepting m.state with
  | true => simp [shift, accepts]
  | false => simp [shift, accepts]

theorem step_shift (h : input.Displays n input') (blind : run.Blind)
    (le : input'.span.start ≤ m.offset) :
    step run g input (m.shift n) = (step run g input' m).shift n := by
  have here : input'.span.start ≤ (m.visit g).offset := le
  unfold step
  rw [visit_shift]
  generalize m.visit g = v at here ⊢
  have picked := pick_shift (s := v.state) h blind here none (g.outgoing v.state)
  have state : (v.shift n).state = v.state := rfl
  have offset : (v.shift n).offset = n + v.offset := rfl
  simp only [state, offset, h.earliest, picked]
  split_ifs
  · rfl
  · cases pick run input' v.state v.offset none (g.outgoing v.state) with
    | error e => rfl
    | ok way =>
      cases way with
      | none => rfl
      | some way =>
        simp only [Except.mapError]
        have seen : (v.shift n).seen = v.seen := rfl
        rw [seen]
        split_ifs
        · rfl
        · rfl
        · simp [shift, Nat.add_assoc]

theorem le_offset_step (le : input.span.start ≤ m.offset) :
    input.span.start ≤ (step run g input m).offset := by
  unfold step
  simp only
  split_ifs
  · exact le
  · split
    · exact le
    · exact le
    · split_ifs
      · exact le
      · exact le
      · exact Nat.le_trans le (Nat.le_add_right ..)

theorem start_shift (h : input.Displays n input') (s : Nat) :
    start input s = (start input' s).shift n := by
  rw [start, h.start]
  rfl

end Walker

namespace Graph

theorem configurations_of_displays (h : input.Displays n input') : g.configurations input =
    (g.configurations input').map (Prod.map id (n + ·)) := by
  rw [configurations, configurations, h.boundaries_eq]
  simp [SProd.sprod, List.product, List.map_flatMap, Function.comp_def]

theorem length_chances_of_displays (h : input.Displays n input') :
    (g.chances input).length = (g.chances input').length := by
  rw [chances, chances, configurations_of_displays h, List.flatMap_map, List.length_flatMap,
    List.length_flatMap]
  simp

/-- A machine that searches a span comes to what it comes to where the same is seen. -/
theorem outcomeFrom_of_displays (h : input.Displays n input') (blind : run.Blind) (mode : Mode)
    (s : Nat) : g.outcomeFrom run input mode s = (g.outcomeFrom run input' mode s).shift n := by
  have walks : drive (Walker.step run g input) Walker.outcome (g.configurations input).length
      (Walker.start input s) = (drive (Walker.step run g input') Walker.outcome
        (g.configurations input').length (Walker.start input' s)).shift n := by
    have count : (g.configurations input).length = (g.configurations input').length := by
      rw [configurations_of_displays h, List.length_map]
    rw [Walker.start_shift h, count]
    refine drive_shift (P := fun m => input'.span.start ≤ m.offset) ?_ ?_ ?_ _ ?_
    · exact fun m => Walker.le_offset_step
    · exact fun m => Walker.step_shift h blind
    · exact fun m => rfl
    · exact Nat.le_refl _
  cases mode with
  | nfa =>
    rw [outcomeFrom, outcomeFrom, Backtracker.start_shift h, length_chances_of_displays h]
    refine drive_shift (P := Backtracker.StaysIn input') ?_ ?_ ?_ _ ?_
    · exact fun m => Backtracker.StaysIn.step g
    · exact fun m => Backtracker.step_shift h blind
    · exact fun m => rfl
    · exact Backtracker.StaysIn.enter (fun c hc => absurd hc List.not_mem_nil) (Nat.le_refl _)
  | dfa => exact walks
  | minimal => exact walks

theorem executeWith_of_displays (h : input.Displays n input') (blind : run.Blind) (mode : Mode) :
    g.executeWith run input mode = relocateRun input.text n (g.executeWith run input' mode) := by
  rw [executeWith, executeWith, h.isValid_eq]
  split_ifs
  · cases g.initial with
    | none => rfl
    | some s =>
      simp only [outcomeFrom_of_displays h blind]
      cases g.outcomeFrom run input' mode s with
      | error e => rfl
      | ok found =>
        cases found with
        | none => rfl
        | some j =>
          simp only [Outcome.shift, Except.mapError, Except.map, Option.map_some, relocateRun,
            Input.upTo, h.start]
  · rfl

/-- Machines see nothing but what the span shows, at any depth of nesting. -/
theorem execute_of_displays (depth : Nat) {n : Nat} {input input' : Input}
    (h : input.Displays n input') (g : Automaton) (mode : Mode) : g.execute depth mode input =
      relocateRun input.text n (g.execute depth mode input') := by
  induction depth generalizing n input input' g mode with
  | zero => rfl
  | succ depth ih =>
    exact executeWith_of_displays h (fun n _ _ h nested => ih h nested.automaton) mode

end Graph

end

end PatternAutomata
