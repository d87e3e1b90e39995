import PatternAutomata.Proofs.Halting

/-!
# The machine that backtracks

A checkpoint is pushed when a configuration is entered for the first time, and every further step
tries the next transition of a checkpoint or pops one. So there is an end to the steps
(`Backtracker.halts`): no transition is tried twice from a configuration, and no configuration is
entered twice.
-/
namespace PatternAutomata.Backtracker

section
variable {run : Runner} {g : Automaton} {input : Input} {n s i : Nat}

/-- What it comes to to enter a state at an offset. -/
theorem enter_cases (g : Automaton) (input : Input) (m : Backtracker) (s i : Nat) :
    enter g input m s i = m ∨ (s, i) ∉ m.visited ∧ ∃ stack best outcome,
      enter g input m s i = ⟨(s, i) :: m.visited, m.tried, stack, best, outcome⟩ ∧
        (stack = m.stack ∨ stack = ⟨s, i, 0⟩ :: m.stack) ∧
          ∀ e, outcome = some (.error e) → m.outcome = some (.error e) := by
  unfold enter
  split_ifs with late old accepting early first last
  · exact .inl rfl
  · exact .inl rfl
  · exact .inr ⟨old, _, _, _, rfl, .inl rfl, by simp⟩
  · exact .inr ⟨old, _, _, _, rfl, .inl rfl, by simp⟩
  · exact .inr ⟨old, _, _, _, rfl, .inl rfl, by simp⟩
  · exact .inr ⟨old, _, _, _, rfl, .inr rfl, fun e => id⟩
  · exact .inr ⟨old, _, _, _, rfl, .inr rfl, fun e => id⟩

/-- What a step of the machine does. -/
inductive Goes (run : Runner) (g : Automaton) (input : Input) (m : Backtracker) :
    Backtracker → Prop where
  | finish (empty : m.stack = []) : Goes run g input m { m with outcome := some (.ok m.best) }
  | late {top rest} (stack : m.stack = top :: rest) (late : m.isLate input top.offset = true) :
      Goes run g input m { m with stack := rest }
  | spent {top rest} (stack : m.stack = top :: rest)
      (spent : (g.closed top.state).leaving[top.next]? = none) :
      Goes run g input m { m with stack := rest }
  | fail {top rest t e} (stack : m.stack = top :: rest)
      (timely : ¬ m.isLate input top.offset = true)
      (next : (g.closed top.state).leaving[top.next]? = some t)
      (failed : t.condition.advance run input top.offset = .error e) :
      Goes run g input m { m.tries top rest with outcome := some (.error e) }
  | miss {top rest t} (stack : m.stack = top :: rest) (timely : ¬ m.isLate input top.offset = true)
      (next : (g.closed top.state).leaving[top.next]? = some t)
      (fails : t.condition.advance run input top.offset = .ok none) :
      Goes run g input m (m.tries top rest)
  | enter {top rest t width} (stack : m.stack = top :: rest)
      (timely : ¬ m.isLate input top.offset = true)
      (next : (g.closed top.state).leaving[top.next]? = some t)
      (holds : t.condition.advance run input top.offset = .ok (some width)) :
      Goes run g input m (enter g input (m.tries top rest) t.target (top.offset + width))

theorem goes_step (run : Runner) (g : Automaton) (input : Input) (m : Backtracker) :
    Goes run g input m (step run g input m) := by
  unfold step
  split
  · exact .finish ‹_›
  · next top rest stack =>
    split_ifs with late
    · exact .late stack late
    · split
      · exact .spent stack ‹_›
      · next t next =>
        split
        · exact .fail stack late next ‹_›
        · exact .miss stack late next ‹_›
        · exact .enter stack late next ‹_›

/-- A configuration with the number at which there are no more transitions to be tried. -/
def lastChance (g : Automaton) (c : Nat × Nat) : (Nat × Nat) × Nat :=
  (c, (g.closed c.1).leaving.length)

/-- What holds of the machine after `n` steps. -/
structure Tidy (run : Runner) (g : Automaton) (input : Input) (n : Nat) (m : Backtracker) :
    Prop where
  entered : m.visited ⊆ g.configurations input
  once : m.visited.Nodup
  pending : ∀ c ∈ m.stack, c.config ∈ m.visited
  apart : (m.stack.map Checkpoint.config).Nodup
  triedOnce : m.tried.Nodup
  fromEntered : ∀ c k, (c, k) ∈ m.tried → c ∈ m.visited ∧ k < (g.closed c.1).leaving.length
  ahead : ∀ c ∈ m.stack, ∀ k, (c.config, k) ∈ m.tried → k < c.next
  counted : m.outcome = none → n + m.stack.length ≤ m.tried.length + m.visited.length
  incurred : ∀ e, m.outcome = some (.error e) → g.Incurs run input e

namespace Tidy

variable {m : Backtracker} {top : Checkpoint} {rest : List Checkpoint}

/-- There are no more steps than ways to try a transition or to give a configuration up. -/
theorem le_chances (h : Tidy run g input n m) :
    m.tried.length + m.visited.length ≤ (g.chances input).length := by
  -- What is tried and what is entered are different chances.
  have once : (m.tried ++ m.visited.map (lastChance g)).Nodup := by
    refine List.nodup_append.mpr ⟨h.triedOnce, h.once.map fun c d e => congrArg Prod.fst e, ?_⟩
    rintro _ tried _ last rfl
    obtain ⟨c, -, rfl⟩ := List.mem_map.mp last
    exact Nat.lt_irrefl _ (h.fromEntered _ _ tried).2
  have sub : m.tried ++ m.visited.map (lastChance g) ⊆ g.chances input := by
    refine List.append_subset.mpr ⟨?_, ?_⟩
    · rintro ⟨c, k⟩ tried
      obtain ⟨visited, lt⟩ := h.fromEntered c k tried
      exact Graph.mem_chances.mpr ⟨h.entered visited, Nat.le_of_lt lt⟩
    · rintro _ last
      obtain ⟨c, visited, rfl⟩ := List.mem_map.mp last
      exact Graph.mem_chances.mpr ⟨h.entered visited, Nat.le_refl _⟩
  have le := (once.subperm sub).length_le
  rwa [List.length_append, List.length_map] at le

theorem le_configurations (h : Tidy run g input n m) :
    m.visited.length ≤ g.liveStates.length * input.boundaries.length :=
  Graph.length_le_of_nodup h.once h.entered

theorem halt (h : Tidy run g input n m) {r : Outcome}
    (incurred : ∀ e, r = .error e → g.Incurs run input e) (k : Nat) :
    Tidy run g input k { m with outcome := some r } :=
  { h with counted := by simp, incurred := fun e same => incurred e (Option.some.inj same) }

theorem pop (h : Tidy run g input n m) (stack : m.stack = top :: rest) :
    Tidy run g input (n + 1) { m with stack := rest } := by
  have sub : ∀ c ∈ rest, c ∈ m.stack := fun c hc => stack ▸ List.mem_cons_of_mem _ hc
  have apart := h.apart
  rw [stack] at apart
  refine { h with
    pending := fun c hc => h.pending c (sub c hc)
    apart := apart.of_cons
    ahead := fun c hc => h.ahead c (sub c hc)
    counted := fun going => ?_ }
  have counted := h.counted going
  rw [stack, List.length_cons] at counted
  change n + 1 + rest.length ≤ m.tried.length + m.visited.length
  omega

theorem tries (h : Tidy run g input n m) (stack : m.stack = top :: rest)
    (lt : top.next < (g.closed top.state).leaving.length) :
    Tidy run g input (n + 1) (m.tries top rest) := by
  have here : top ∈ m.stack := stack ▸ List.mem_cons_self ..
  have sub : ∀ c ∈ rest, c ∈ m.stack := fun c hc => stack ▸ List.mem_cons_of_mem _ hc
  have apart := h.apart
  rw [stack] at apart
  refine { h with
    pending := ?pending
    apart := apart
    triedOnce := ?triedOnce
    fromEntered := ?fromEntered
    ahead := ?ahead
    counted := ?counted }
  case pending =>
    exact List.forall_mem_cons.mpr ⟨h.pending top here, fun c hc => h.pending c (sub c hc)⟩
  case triedOnce =>
    exact List.nodup_cons.mpr ⟨fun again => Nat.lt_irrefl _ (h.ahead top here _ again), h.triedOnce⟩
  case fromEntered =>
    rintro c k tried
    rcases List.mem_cons.mp tried with same | tried
    · cases same
      exact ⟨h.pending top here, lt⟩
    · exact h.fromEntered c k tried
  case ahead =>
    rintro c hc k tried
    rcases List.mem_cons.mp hc with rfl | hc
    · rcases List.mem_cons.mp tried with same | tried
      · cases same
        exact Nat.lt_succ_self _
      · exact Nat.lt_succ_of_lt (h.ahead top here k tried)
    · rcases List.mem_cons.mp tried with same | tried
      · -- No other checkpoint is for the configuration of the one on top.
        have again : top.config ∈ rest.map Checkpoint.config :=
          (Prod.mk.inj same).1 ▸ List.mem_map_of_mem hc
        exact absurd again (List.nodup_cons.mp apart).1
      · exact h.ahead c (sub c hc) k tried
  case counted =>
    intro going
    have counted := h.counted going
    rw [stack, List.length_cons] at counted
    simp only [Backtracker.tries, List.length_cons]
    omega

theorem enter (h : Tidy run g input n m) (going : m.outcome = none)
    (inside : (s, i) ∈ g.configurations input) :
    Tidy run g input n (enter g input m s i) := by
  rcases enter_cases g input m s i with
    same | ⟨new, stack, best, outcome, same, stacked, faultless⟩
  · rwa [same]
  rw [same]
  have unstacked : (s, i) ∉ m.stack.map Checkpoint.config := by
    rintro stacked
    obtain ⟨c, hc, e⟩ := List.mem_map.mp stacked
    exact new (e ▸ h.pending c hc)
  have untried (k : Nat) : ((s, i), k) ∉ m.tried := fun tried => new (h.fromEntered _ k tried).1
  refine ⟨List.cons_subset.mpr ⟨inside, h.entered⟩, List.nodup_cons.mpr ⟨new, h.once⟩,
    ?pending, ?apart, h.triedOnce, ?fromEntered, ?ahead, ?counted, ?incurred⟩
  case pending =>
    intro c hc
    rcases stacked with rfl | rfl
    · exact List.mem_cons_of_mem _ (h.pending c hc)
    · rcases List.mem_cons.mp hc with rfl | hc
      · exact List.mem_cons_self ..
      · exact List.mem_cons_of_mem _ (h.pending c hc)
  case apart =>
    rcases stacked with rfl | rfl
    · exact h.apart
    · exact List.nodup_cons.mpr ⟨unstacked, h.apart⟩
  case fromEntered =>
    intro c k tried
    exact ⟨List.mem_cons_of_mem _ (h.fromEntered c k tried).1, (h.fromEntered c k tried).2⟩
  case ahead =>
    intro c hc k tried
    rcases stacked with rfl | rfl
    · exact h.ahead c hc k tried
    · rcases List.mem_cons.mp hc with rfl | hc
      · exact absurd tried (untried k)
      · exact h.ahead c hc k tried
  case counted =>
    intro _
    have counted := h.counted going
    rcases stacked with rfl | rfl <;> simp only [List.length_cons] <;> omega
  case incurred => exact fun e failed => h.incurred e (faultless e failed)

/-- A step keeps the machine tidy. -/
theorem step (hg : g.Intact) (going : m.outcome = none) (h : Tidy run g input n m) :
    Tidy run g input (n + 1) (step run g input m) := by
  have goes := goes_step run g input m
  generalize Backtracker.step run g input m = m' at goes
  cases goes with
  | finish empty => exact h.halt (by simp) _
  | late stack late => exact h.pop stack
  | spent stack spent => exact h.pop stack
  | @fail top rest t e stack timely next failed =>
    obtain ⟨lt, -⟩ := List.getElem?_eq_some_iff.mp next
    obtain ⟨r, out⟩ := Graph.mem_outgoing_of_leaving (List.mem_of_getElem? next)
    have inside := h.entered (h.pending top (stack ▸ List.mem_cons_self ..))
    refine (h.tries stack lt).halt (fun e' same => ?_) _
    cases same
    exact Graph.incurs_of_advance hg (Graph.mem_configurations.mp inside).2 out failed
  | miss stack timely next fails =>
    exact h.tries stack (List.getElem?_eq_some_iff.mp next).1
  | @enter top rest t width stack timely next holds =>
    obtain ⟨lt, -⟩ := List.getElem?_eq_some_iff.mp next
    obtain ⟨r, out⟩ := Graph.mem_outgoing_of_leaving (List.mem_of_getElem? next)
    have inside := h.entered (h.pending top (stack ▸ List.mem_cons_self ..))
    refine (h.tries stack lt).enter going (Graph.mem_configurations.mpr ⟨hg.isLive_target out, ?_⟩)
    exact Graph.boundary_of_advance (Graph.mem_configurations.mp inside).2 holds

theorem start (live : g.IsLive s) (valid : input.isValid = true) :
    Tidy run g input 0 (start g input s) := by
  have clean : Tidy run g input 0 ⟨[], [], [], none, none⟩ := by
    constructor <;> simp
  exact clean.enter rfl (Graph.mem_configurations.mpr ⟨live, Input.start_mem_boundaries valid⟩)

end Tidy

/-- The machine stays tidy all the time. -/
theorem tidy_of_steps (hg : g.Intact) (live : g.IsLive s) (valid : input.isValid = true)
    {m : Backtracker} (h : After run g input s n m) :
    Tidy run g input n m :=
  h.induct (.start live valid) fun _ _ going tidy => tidy.step hg going

/-- The machine halts, with what it comes to. -/
theorem halts (run : Runner) (hg : g.Intact) (live : g.IsLive s) (valid : input.isValid = true) :
    ∃ n m, n ≤ (g.chances input).length + 1 ∧ After run g input s n m ∧
      m.outcome = some (g.outcomeFrom run input .nfa s) := by
  have busy (n : Nat) (m : Backtracker) (steps : After run g input s n m)
      (going : m.outcome = none) : n < (g.chances input).length + 1 := by
    have tidy := tidy_of_steps hg live valid steps
    have counted := tidy.counted going
    have le := tidy.le_chances
    omega
  obtain ⟨n, m, r, le, steps, halts⟩ := exists_halt busy
  exact ⟨n, m, le, steps, halts.trans (congrArg some (drive_eq steps halts le).symm)⟩

end

end PatternAutomata.Backtracker
