import PatternAutomata.Proofs.Machines
import Mathlib.Data.List.Perm.Subperm

/-!
# When machines halt

A machine halts if there is a bound to the steps after which it is still going (`exists_halt`), and
then it comes to the same whatever number of steps it is given beyond that (`drive_eq`). The bounds
are drawn from the configurations, which are pairs of a live state and a boundary of the span. A
machine stays among them, since a step from a boundary leads to a boundary (`boundary_of_advance`),
and no other faults come up there than errors of the automaton and faults of nested automata
(`incurs_of_advance`).
-/
namespace PatternAutomata

namespace Input

variable {input : Input} {i : Nat} {d : Char} {rest : List Char}

theorem mem_boundaries : i ∈ input.boundaries ↔
    input.span.start ≤ i ∧ (input.ahead i).isValid = true := by
  simp only [boundaries, List.mem_filter, List.mem_range, Bool.and_eq_true, decide_eq_true_eq,
    and_iff_right_iff_imp]
  rintro ⟨-, valid⟩
  obtain ⟨rest, hr⟩ := Option.isSome_iff_exists.mp valid
  have size := (endsAt_window hr).2
  simp only [ahead] at size
  omega

theorem start_mem_boundaries (valid : input.isValid = true) :
    input.span.start ∈ input.boundaries := mem_boundaries.mpr ⟨Nat.le_refl _, valid⟩

/-- The text can be cut at a boundary. -/
theorem exists_slice (h : i ∈ input.boundaries) :
    ∃ rest, (input.ahead i).window? = some rest ∧ input.slice i = .ok rest := by
  obtain ⟨rest, hr⟩ := Option.isSome_iff_exists.mp (mem_boundaries.mp h).2
  exact ⟨rest, hr, by simp only [slice, hr]⟩

/-- The character after a boundary ends at a boundary. -/
theorem add_mem_boundaries (h : i ∈ input.boundaries)
    (hr : (input.ahead i).window? = some (d :: rest)) : i + d.utf8Size ∈ input.boundaries := by
  have after : (input.ahead (i + byteSize [d])).window? = some rest := window?_suffix hr
  simp only [byteSize, Nat.add_zero] at after
  refine mem_boundaries.mpr ⟨Nat.le_add_right_of_le (mem_boundaries.mp h).1, ?_⟩
  rw [isValid, after]
  rfl

end Input

section
variable {σ : Type} {step : σ → σ} {outcome : σ → Option Outcome} {start m : σ} {n bound : Nat}

theorem drive_of_outcome {r : Outcome} (h : outcome m = some r) (limit : Nat) :
    drive step outcome limit m = r := by
  cases limit <;> rw [drive, h] <;> rfl

theorem drive_of_steps (h : Steps step outcome start n m) (more : Nat) :
    drive step outcome (n + more) start = drive step outcome more m := by
  induction h generalizing more with
  | refl => rw [Nat.zero_add]
  | @tail n m _ going ih =>
    rw [Nat.add_right_comm, Nat.add_assoc, ih, drive, going]
    rfl

/-- A machine that is given enough steps comes to what it halts with. -/
theorem drive_eq (h : Steps step outcome start n m) {r : Outcome} (halts : outcome m = some r)
    {limit : Nat} (enough : n ≤ limit) : drive step outcome limit start = r := by
  rw [← Nat.add_sub_of_le enough, drive_of_steps h, drive_of_outcome halts]

/-- What holds at the start and is kept by every step holds all the time. -/
theorem Steps.induct {P : Nat → σ → Prop} (h : Steps step outcome start n m) (first : P 0 start)
    (next : ∀ n m, outcome m = none → P n m → P (n + 1) (step m)) : P n m := by
  induction h with
  | refl => exact first
  | tail _ going ih => exact next _ _ going ih

/-- A machine halts if there is a bound to the steps after which it is still going. -/
theorem exists_halt (busy : ∀ n m, Steps step outcome start n m → outcome m = none → n < bound) :
    ∃ n m r, n ≤ bound ∧ Steps step outcome start n m ∧ outcome m = some r := by
  by_contra never
  -- Without an outcome up to the bound the machine would still be going there.
  have alive {n : Nat} {m : σ} (le : n ≤ bound) (h : Steps step outcome start n m) :
      outcome m = none := by
    cases e : outcome m with
    | none => rfl
    | some r => exact absurd ⟨n, m, r, le, h, e⟩ never
  have going (n : Nat) (le : n ≤ bound) : ∃ m, Steps step outcome start n m := by
    induction n with
    | zero => exact ⟨start, .refl⟩
    | succ n ih =>
      obtain ⟨m, steps⟩ := ih (Nat.le_of_succ_le le)
      exact ⟨step m, steps.tail (alive (Nat.le_of_succ_le le) steps)⟩
  obtain ⟨m, steps⟩ := going bound (Nat.le_refl _)
  exact Nat.lt_irrefl _ (busy bound m steps (alive (Nat.le_refl _) steps))

end

namespace Graph

variable {g : Automaton} {input : Input} {s i : Nat}

theorem mem_configurations :
    (s, i) ∈ g.configurations input ↔ g.IsLive s ∧ i ∈ input.boundaries := by
  rw [configurations, List.mem_product, mem_liveStates]

theorem length_configurations (g : Automaton) (input : Input) :
    (g.configurations input).length = g.liveStates.length * input.boundaries.length :=
  List.length_product ..

/-- A list of configurations that are all different is no longer than there are configurations. -/
theorem length_le_of_nodup {cs : List (Nat × Nat)} (once : cs.Nodup)
    (sub : cs ⊆ g.configurations input) :
    cs.length ≤ g.liveStates.length * input.boundaries.length :=
  length_configurations g input ▸ (once.subperm sub).length_le

theorem mem_chances {c : Nat × Nat} {k : Nat} : (c, k) ∈ g.chances input ↔
    c ∈ g.configurations input ∧ k ≤ (g.closed c.1).leaving.length := by
  simp only [chances, List.mem_flatMap, List.mem_map, List.mem_range, Nat.lt_succ_iff]
  constructor
  · rintro ⟨_, hc, _, le, ⟨⟩⟩
    exact ⟨hc, le⟩
  · rintro ⟨hc, le⟩
    exact ⟨c, hc, k, le, rfl⟩

theorem mem_nested {n : Nested} (hg : g.Intact) {t : Transition Nested} (ht : t ∈ g.outgoing s)
    {mode : Mode} {negated : Bool} (hc : t.condition = .check n mode negated) : n ∈ g.nested := by
  obtain ⟨k, hk⟩ := hg.mem_liveTransitions ht
  refine List.mem_filterMap.mpr ⟨_, hk, ?_⟩
  simp only [hc]

theorem mem_outgoing_of_leaving {t : Transition Nested} (ht : t ∈ (g.closed s).leaving) :
    ∃ m, t ∈ g.outgoing m := by
  obtain ⟨m, -, out, -⟩ := mem_leaving.mp ht
  exact ⟨m, out⟩

/-- A fault of a machine: an error of the automaton, or the fault of a nested automaton that is run
from a boundary of the span. -/
def Incurs (run : Runner) (g : Automaton) (input : Input) (e : Fault) : Prop :=
  (∃ err, e = .failed err) ∨ ∃ n ∈ g.nested, ∃ mode, ∃ i ∈ input.boundaries,
    run n mode (input.ahead i) = .error e

section
variable {run : Runner} {t : Transition Nested} {w : Nat} {e : Fault}

theorem boundary_of_advance (h : i ∈ input.boundaries) {c : Condition Nested}
    (ok : c.advance run input i = .ok (some w)) : i + w ∈ input.boundaries := by
  obtain ⟨rest, hr, cut⟩ := Input.exists_slice h
  have reads {test : Char → Bool} (ok : Condition.read input i test = .ok (some w)) :
      i + w ∈ input.boundaries := by
    rw [Condition.read, cut] at ok
    obtain ⟨d, hd, rfl⟩ := Option.map_eq_some_iff.mp (Except.ok.inj ok)
    obtain ⟨head, -⟩ := Option.filter_eq_some_iff.mp hd
    obtain ⟨rest', rfl⟩ := List.head?_eq_some_iff.mp head
    exact Input.add_mem_boundaries h hr
  cases c with
  | char c => exact reads ok
  | set s => exact reads ok
  | sigma => cases ok
  | check n mode negated =>
    rw [Condition.advance] at ok
    cases found : run n mode (input.ahead i) with
    | error e =>
      rw [found] at ok
      cases ok
    | ok r =>
      rw [found] at ok
      have stays : (if r.isSome != negated then some 0 else none) = some w := Except.ok.inj ok
      obtain ⟨-, same⟩ := Option.ite_none_right_eq_some.mp stays
      cases same
      exact h

theorem incurs_of_advance (hg : g.Intact) (h : i ∈ input.boundaries) (ht : t ∈ g.outgoing s)
    (failed : t.condition.advance run input i = .error e) : g.Incurs run input e := by
  obtain ⟨rest, -, cut⟩ := Input.exists_slice h
  cases hc : t.condition with
  | char c =>
    rw [hc, Condition.advance, Condition.read, cut] at failed
    cases failed
  | set s =>
    rw [hc, Condition.advance, Condition.read, cut] at failed
    cases failed
  | sigma =>
    rw [hc] at failed
    cases failed
    exact .inl ⟨_, rfl⟩
  | check n mode negated =>
    rw [hc, Condition.advance] at failed
    cases found : run n mode (input.ahead i) with
    | error e' =>
      rw [found] at failed
      cases failed
      exact .inr ⟨n, mem_nested hg ht hc, mode, i, h, found⟩
    | ok r =>
      rw [found] at failed
      cases failed

end

end Graph

end PatternAutomata
