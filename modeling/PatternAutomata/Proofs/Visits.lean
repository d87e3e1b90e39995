import PatternAutomata.Proofs.Halting

/-!
# The machine that follows a single way

Every step of the machine visits one more configuration. It comes back to none: a configuration at
an earlier offset lies behind it, and the states that it has visited at the current offset are kept
in mind. So it makes no more steps than there are configurations (`Walker.halts`).
-/
namespace PatternAutomata.Walker

section
variable {run : Runner} {g : Automaton} {input : Input} {n s i : Nat}

theorem pick_cases {taken chosen : Option (Nat × Nat)} {ts : List (Transition Nested)}
    (ok : pick run input s i taken ts = .ok chosen) : chosen = taken ∨
      ∃ t ∈ ts, ∃ w, t.condition.advance run input i = .ok (some w) ∧
        chosen = some (t.target, w) := by
  induction ts generalizing taken with
  | nil => exact .inl (Except.ok.inj ok).symm
  | cons t rest ih =>
    cases adv : t.condition.advance run input i with
    | error e => simp [pick, adv, bind, Except.bind] at ok
    | ok r =>
      simp only [pick, adv, bind, Except.bind] at ok
      cases r with
      | none => exact (ih ok).imp_right fun ⟨u, hu, found⟩ => ⟨u, List.mem_cons_of_mem _ hu, found⟩
      | some w =>
        cases taken with
        | some _ => cases ok
        | none =>
          rcases ih ok with rfl | ⟨u, hu, found⟩
          · exact .inr ⟨t, List.mem_cons_self .., w, adv, rfl⟩
          · exact .inr ⟨u, List.mem_cons_of_mem _ hu, found⟩

theorem incurs_of_pick (hg : g.Intact) (h : i ∈ input.boundaries) {taken : Option (Nat × Nat)}
    {r : Nat} {ts : List (Transition Nested)} (out : ∀ t ∈ ts, t ∈ g.outgoing r) {e : Fault}
    (failed : pick run input s i taken ts = .error e) : g.Incurs run input e := by
  induction ts generalizing taken with
  | nil => cases failed
  | cons t rest ih =>
    have others : ∀ t ∈ rest, t ∈ g.outgoing r := fun u hu => out u (List.mem_cons_of_mem _ hu)
    cases adv : t.condition.advance run input i with
    | error e' =>
      simp only [pick, adv, bind, Except.bind] at failed
      cases failed
      exact Graph.incurs_of_advance hg h (out t (List.mem_cons_self ..)) adv
    | ok found =>
      simp only [pick, adv, bind, Except.bind] at failed
      cases found with
      | none => exact ih others failed
      | some w =>
        cases taken with
        | some _ =>
          cases failed
          exact .inl ⟨_, rfl⟩
        | none => exact ih others failed

/-- The choice that the machine has where it is. -/
def choice (run : Runner) (g : Automaton) (input : Input) (m : Walker) :
    Except Fault (Option (Nat × Nat)) :=
  pick run input m.state m.offset none (g.outgoing m.state)

/-- What a step of the machine does. -/
inductive Goes (run : Runner) (g : Automaton) (input : Input) (m : Walker) : Walker → Prop where
  | stop (stop : (input.earliest && g.isAccepting m.state) = true) :
      Goes run g input m { m.visit g with outcome := some (.ok (m.visit g).best) }
  | fail {e} (going : ¬ (input.earliest && g.isAccepting m.state) = true)
      (failed : m.choice run g input = .error e) :
      Goes run g input m { m.visit g with outcome := some (.error e) }
  | finish (going : ¬ (input.earliest && g.isAccepting m.state) = true)
      (none : m.choice run g input = .ok none) :
      Goes run g input m { m.visit g with outcome := some (.ok (m.visit g).best) }
  | circle {next} (going : ¬ (input.earliest && g.isAccepting m.state) = true)
      (chosen : m.choice run g input = .ok (some (next, 0))) (old : next ∈ (m.visit g).seen) :
      Goes run g input m { m.visit g with outcome := some (.ok (m.visit g).best) }
  | glide {next} (going : ¬ (input.earliest && g.isAccepting m.state) = true)
      (chosen : m.choice run g input = .ok (some (next, 0))) (new : next ∉ (m.visit g).seen) :
      Goes run g input m { m.visit g with state := next }
  | advance {next width} (going : ¬ (input.earliest && g.isAccepting m.state) = true)
      (chosen : m.choice run g input = .ok (some (next, width))) (consumes : width ≠ 0) :
      Goes run g input m
        { m.visit g with state := next, offset := m.offset + width, seen := [] }

theorem goes_step (run : Runner) (g : Automaton) (input : Input) (m : Walker) :
    Goes run g input m (step run g input m) := by
  unfold step
  dsimp only
  split
  · next stop => exact .stop stop
  · next going =>
    split
    · exact .fail going ‹_›
    · exact .finish going ‹_›
    · next next width chosen =>
      split_ifs with zero old
      · subst zero
        exact .circle going chosen old
      · subst zero
        exact .glide going chosen old
      · exact .advance going chosen zero

/-- What holds of the machine after `n` steps. -/
structure Tidy (run : Runner) (g : Automaton) (input : Input) (n : Nat) (m : Walker) : Prop where
  visited : m.trail ⊆ g.configurations input
  once : m.trail.Nodup
  counted : m.trail.length = n
  behind : ∀ c ∈ m.trail, c.2 ≤ m.offset
  inside : m.outcome = none → (m.state, m.offset) ∈ g.configurations input
  recent : m.outcome = none → ∀ r, (r, m.offset) ∈ m.trail → r ∈ m.seen
  fresh : m.outcome = none → m.state ∉ m.seen
  incurred : ∀ e, m.outcome = some (.error e) → g.Incurs run input e

namespace Tidy

variable {m : Walker}

theorem new (h : Tidy run g input n m) (going : m.outcome = none) :
    ((m.state, m.offset) :: m.trail).Nodup :=
  List.nodup_cons.mpr ⟨fun old => h.fresh going (h.recent going _ old), h.once⟩

theorem le_configurations (h : Tidy run g input n m) :
    m.trail.length ≤ g.liveStates.length * input.boundaries.length :=
  Graph.length_le_of_nodup h.once h.visited

/-- There are no more steps than configurations. -/
theorem lt_configurations (h : Tidy run g input n m) (going : m.outcome = none) :
    n < (g.configurations input).length := by
  have sub := List.cons_subset.mpr ⟨h.inside going, h.visited⟩
  have le := ((h.new going).subperm sub).length_le
  rwa [List.length_cons, h.counted] at le

/-- A visit, after which the machine halts or goes on in another configuration. -/
theorem visit (h : Tidy run g input n m) (going : m.outcome = none) {m' : Walker}
    (trail : m'.trail = (m.state, m.offset) :: m.trail) (le : m.offset ≤ m'.offset)
    (inside : m'.outcome = none → (m'.state, m'.offset) ∈ g.configurations input)
    (recent : m'.outcome = none → m'.offset = m.offset → ∀ r ∈ m.state :: m.seen, r ∈ m'.seen)
    (fresh : m'.outcome = none → m'.state ∉ m'.seen)
    (incurred : ∀ e, m'.outcome = some (.error e) → g.Incurs run input e) :
    Tidy run g input (n + 1) m' := by
  refine ⟨?visited, ?once, ?counted, ?behind, inside, ?recent, fresh, incurred⟩
  case visited => exact trail ▸ List.cons_subset.mpr ⟨h.inside going, h.visited⟩
  case once => exact trail ▸ h.new going
  case counted => rw [trail, List.length_cons, h.counted]
  case behind =>
    rw [trail]
    exact List.forall_mem_cons.mpr ⟨le, fun c hc => Nat.le_trans (h.behind c hc) le⟩
  case recent =>
    intro going' r hr
    rw [trail] at hr
    rcases List.mem_cons.mp hr with same | old
    · obtain ⟨rfl, offset⟩ := Prod.mk.inj same
      exact recent going' offset m.state (List.mem_cons_self ..)
    · -- Something was visited earlier at the new offset, so it is the old one.
      have same : m'.offset = m.offset := Nat.le_antisymm (h.behind _ old) le
      refine recent going' same r (List.mem_cons_of_mem _ ?_)
      exact h.recent going r (same ▸ old)

theorem halt (h : Tidy run g input n m) (going : m.outcome = none) {r : Outcome}
    (incurred : ∀ e, r = .error e → g.Incurs run input e) :
    Tidy run g input (n + 1) { m.visit g with outcome := some r } := by
  refine h.visit going rfl (Nat.le_refl _) (by simp) (by simp) (by simp) fun e same => ?_
  exact incurred e (Option.some.inj same)

/-- A step keeps the machine tidy. -/
theorem step (hg : g.Intact) (going : m.outcome = none) (h : Tidy run g input n m) :
    Tidy run g input (n + 1) (step run g input m) := by
  obtain ⟨-, boundary⟩ := Graph.mem_configurations.mp (h.inside going)
  have inside {next w : Nat} (chosen : m.choice run g input = .ok (some (next, w))) :
      (next, m.offset + w) ∈ g.configurations input := by
    rcases pick_cases chosen with none | ⟨t, ht, w, ok, same⟩
    · cases none
    · cases same
      exact Graph.mem_configurations.mpr
        ⟨hg.isLive_target ht, Graph.boundary_of_advance boundary ok⟩
  have goes := goes_step run g input m
  generalize Walker.step run g input m = m' at goes
  cases goes with
  | stop => exact h.halt going (by simp)
  | fail _ failed =>
    refine h.halt going fun e same => ?_
    cases same
    exact incurs_of_pick hg boundary (fun _ => id) failed
  | finish => exact h.halt going (by simp)
  | circle => exact h.halt going (by simp)
  | glide _ chosen new =>
    exact h.visit going rfl (Nat.le_refl _) (fun _ => inside chosen) (fun _ _ _ => id)
      (fun _ => new) h.incurred
  | advance _ chosen consumes =>
    refine h.visit going rfl (Nat.le_add_right ..) (fun _ => inside chosen) (fun _ same => ?_)
      (fun _ => List.not_mem_nil) h.incurred
    exact absurd (Nat.add_left_cancel same) consumes

theorem start (live : g.IsLive s) (valid : input.isValid = true) :
    Tidy run g input 0 (start input s) := by
  have inside := Graph.mem_configurations.mpr ⟨live, Input.start_mem_boundaries valid⟩
  constructor <;> simp [Walker.start, inside]

end Tidy

/-- The machine stays tidy all the time. -/
theorem tidy_of_steps (hg : g.Intact) (live : g.IsLive s) (valid : input.isValid = true)
    {m : Walker} (h : After run g input s n m) :
    Tidy run g input n m :=
  h.induct (.start live valid) fun _ _ going tidy => tidy.step hg going

/-- The machine halts, with what it comes to. -/
theorem halts (run : Runner) {mode : Mode} (single : mode ≠ .nfa) (hg : g.Intact)
    (live : g.IsLive s) (valid : input.isValid = true) :
    ∃ n m, n ≤ (g.configurations input).length ∧ After run g input s n m ∧
      m.outcome = some (g.outcomeFrom run input mode s) := by
  obtain ⟨n, m, r, le, steps, halts⟩ := exists_halt fun _ _ steps going =>
    (tidy_of_steps hg live valid steps).lt_configurations going
  refine ⟨n, m, le, steps, halts.trans (congrArg some ?_)⟩
  cases mode with
  | nfa => exact absurd rfl single
  | dfa => exact (drive_eq steps halts le).symm
  | minimal => exact (drive_eq steps halts le).symm

end

end PatternAutomata.Walker
