import PatternAutomata.Automaton.Closure
import PatternAutomata.Proofs.Runs

/-!
# What sigma transitions add

The closure of a state holds exactly the states that sigma transitions lead to (`mem_closure`).
Seen from closure to closure, a run makes leaps: one transition that is no sigma transition, taken
from any state of the closure. Leaps end where runs end (`accepts_iff_leaps`).
-/
namespace PatternAutomata

namespace Marks

variable {n : Nat}

theorem contains_empty (i : Nat) : (empty n).contains i = false := by simp [empty, contains]

theorem mark?_eq_none_iff {m : Marks n} {i : Nat} :
    m.mark? i = none ↔ (i < n → m.contains i = true) := by
  unfold mark? contains
  by_cases h : i < n <;> cases k : m.marked.contains i <;> simp [h]

theorem lt_of_mark? {m m' : Marks n} {i : Nat} (h : m.mark? i = some m') :
    i < n ∧ m.contains i = false := by
  unfold mark? at h
  split at h
  · next k =>
    simp only [Bool.and_eq_true, decide_eq_true_eq, Bool.not_eq_true'] at k
    exact k
  · cases h

theorem contains_iff_of_mark? {m m' : Marks n} {i j : Nat} (h : m.mark? i = some m') :
    m'.contains j = true ↔ j = i ∨ m.contains j = true := by
  rw [contains_of_mark? h, Bool.or_eq_true, beq_iff_eq, eq_comm]

end Marks

namespace Graph

variable {ν : Type}

/-- Sigma transitions lead from one state to another. -/
def SigmaReaches (g : Graph ν) : Nat → Nat → Prop :=
  Relation.ReflTransGen fun s t => t ∈ g.sigmaTargets s

theorem mem_sigmaTargets {g : Graph ν} {s m : Nat} :
    m ∈ g.sigmaTargets s ↔ ∃ t ∈ g.outgoing s, t.condition.isSigma = true ∧ t.target = m := by
  simp [sigmaTargets]

theorem sigmaReaches_of_mem {g : Graph ν} {seen : Marks g.states.size} {pending : List Nat}
    {m : Nat}
    (h : m ∈ g.closureFrom seen pending) : ∃ s ∈ pending, g.SigmaReaches s m := by
  fun_induction closureFrom g seen pending with
  | case1 => cases h
  | case2 seen s pending _ ih =>
    obtain ⟨r, hr, reach⟩ := ih h
    exact ⟨r, by simp [hr], reach⟩
  | case3 seen s pending seen' _ ih =>
    rcases List.mem_cons.mp h with rfl | h
    · exact ⟨m, by simp, .refl⟩
    · obtain ⟨r, hr, reach⟩ := ih h
      rcases List.mem_append.mp hr with hr | hr
      · exact ⟨s, by simp, .head hr reach⟩
      · exact ⟨r, by simp [hr], reach⟩

/-- What is visited, before or now, takes in the pending states and the targets of what is visited
now. -/
theorem closed_closureFrom {g : Graph ν} {seen : Marks g.states.size} {pending : List Nat} :
    (∀ s ∈ pending, s < g.states.size →
      seen.contains s = true ∨ s ∈ g.closureFrom seen pending) ∧
    ∀ s ∈ g.closureFrom seen pending, ∀ t ∈ g.sigmaTargets s, t < g.states.size →
      seen.contains t = true ∨ t ∈ g.closureFrom seen pending := by
  fun_induction closureFrom g seen pending with
  | case1 => simp
  | case2 seen s pending old ih =>
    refine ⟨fun r hr lt => ?_, ih.2⟩
    rcases List.mem_cons.mp hr with rfl | hr
    · exact .inl (Marks.mark?_eq_none_iff.mp old lt)
    · exact ih.1 r hr lt
  | case3 seen s pending seen' new ih =>
    have grown {t : Nat} (h : seen'.contains t = true ∨
        t ∈ g.closureFrom seen' (g.sigmaTargets s ++ pending)) : seen.contains t = true ∨
          t ∈ s :: g.closureFrom seen' (g.sigmaTargets s ++ pending) := by
      rw [Marks.contains_iff_of_mark? new] at h
      rcases h with (rfl | h) | h
      · exact .inr (by simp)
      · exact .inl h
      · exact .inr (by simp [h])
    refine ⟨fun r hr lt => ?_, fun r hr t ht lt => ?_⟩
    · rcases List.mem_cons.mp hr with rfl | hr
      · exact .inr (by simp)
      · exact grown (ih.1 r (by simp [hr]) lt)
    · rcases List.mem_cons.mp hr with rfl | hr
      · exact grown (ih.1 t (by simp [ht]) lt)
      · exact grown (ih.2 r hr t ht lt)

/-- The closure of a live state: all states that sigma transitions lead to. -/
theorem mem_closure {g : Graph ν} (hg : g.Intact) {s m : Nat} (hs : g.IsLive s) :
    m ∈ g.closure s ↔ g.SigmaReaches s m := by
  constructor
  · intro h
    obtain ⟨r, hr, reach⟩ := sigmaReaches_of_mem h
    exact List.mem_singleton.mp hr ▸ reach
  · intro reach
    obtain ⟨start, step⟩ : _ ∧ _ := @closed_closureFrom ν g (Marks.empty _) [s]
    induction reach with
    | refl => exact (start s (by simp) hs.lt).resolve_left (by simp [Marks.contains_empty])
    | tail _ ht ih =>
      obtain ⟨t, out, _, rfl⟩ := mem_sigmaTargets.mp ht
      exact (step _ ih _ ht (hg.isLive_target out).lt).resolve_left (by simp [Marks.contains_empty])

theorem mem_leaving {g : Graph ν} {s : Nat} {t : Transition ν} :
    t ∈ (g.closed s).leaving ↔
      ∃ m ∈ g.closure s, t ∈ g.outgoing m ∧ t.condition.isSigma = false := by
  simp [closed]

theorem closed_accepting {g : Graph ν} {s : Nat} :
    (g.closed s).accepting = true ↔ ∃ m ∈ g.closure s, g.isAccepting m = true := by
  simp [closed]

/-- One transition that is no sigma transition leads from the closure of a state to another. -/
def Leaps (g : Graph ν) (probe : Probe ν) (a b : Config) : Prop :=
  ∃ t ∈ (g.closed a.1).leaving, t.target = b.1 ∧ t.condition.Leads probe a.2 b.2

theorem SigmaReaches.runs {g : Graph ν} {probe : Probe ν} {s m : Nat} (h : g.SigmaReaches s m)
    (u : List Char) : g.Runs probe (s, u) (m, u) := by
  induction h with
  | refl => exact .refl
  | tail _ ht ih =>
    obtain ⟨t, out, sigma, rfl⟩ := mem_sigmaTargets.mp ht
    exact ih.tail ⟨t, out, rfl, (Condition.leads_of_isSigma sigma).mpr rfl⟩

theorem Leaps.runs {g : Graph ν} {probe : Probe ν} {a b : Config} (h : g.Leaps probe a b) :
    g.Runs probe a b := by
  obtain ⟨t, ht, target, leads⟩ := h
  obtain ⟨m, hm, out, _⟩ := mem_leaving.mp ht
  obtain ⟨r, hr, reach⟩ := sigmaReaches_of_mem hm
  have start := List.mem_singleton.mp hr ▸ reach
  exact (start.runs a.2).tail ⟨t, out, target, leads⟩

theorem runs_of_leaps {g : Graph ν} {probe : Probe ν} {a b : Config}
    (h : Relation.ReflTransGen (g.Leaps probe) a b) : g.Runs probe a b := by
  induction h with
  | refl => exact .refl
  | tail _ leap ih => exact ih.trans leap.runs

/-- A run is a series of leaps, and sigma transitions after the last one. -/
theorem exists_leaps {g : Graph ν} (hg : g.Intact) {probe : Probe ν} {a b : Config}
    (ha : g.IsLive a.1) (h : g.Runs probe a b) :
    ∃ s, Relation.ReflTransGen (g.Leaps probe) a (s, b.2) ∧ g.IsLive s ∧ b.1 ∈ g.closure s := by
  induction h with
  | refl => exact ⟨a.1, .refl, ha, (mem_closure hg ha).mpr .refl⟩
  | @tail b c run move ih =>
    obtain ⟨s, leaps, hs, member⟩ := ih
    obtain ⟨t, out, target, leads⟩ := move
    cases sigma : t.condition.isSigma with
    | true =>
      have same : b.2 = c.2 := (Condition.leads_of_isSigma sigma).mp leads
      refine ⟨s, same ▸ leaps, hs, (mem_closure hg hs).mpr ?_⟩
      exact ((mem_closure hg hs).mp member).tail (mem_sigmaTargets.mpr ⟨t, out, sigma, target⟩)
    | false =>
      have live : g.IsLive c.1 := target ▸ hg.isLive_target out
      exact ⟨c.1, leaps.tail ⟨t, mem_leaving.mpr ⟨b.1, member, out, sigma⟩, target, leads⟩, live,
        (mem_closure hg live).mpr .refl⟩

theorem isLive_of_leaps {g : Graph ν} (hg : g.Intact) {probe : Probe ν} {a b : Config}
    (ha : g.IsLive a.1) (h : Relation.ReflTransGen (g.Leaps probe) a b) : g.IsLive b.1 :=
  (runs_of_leaps h).isLive hg ha

/-- An automaton accepts where a series of leaps ends in a state whose closure accepts. -/
theorem accepts_iff_leaps {g : Graph ν} (hg : g.Intact) {probe : Probe ν} {window : List Char}
    {pos : Nat} : g.Accepts probe window pos ↔ ∃ i s rest, g.initial = some i ∧
      Relation.ReflTransGen (g.Leaps probe) (i, window) (s, rest) ∧
        (g.closed s).accepting = true ∧ pos + rest.length = window.length := by
  rw [accepts_iff]
  constructor
  · rintro ⟨i, s, rest, hi, run, accepting, len⟩
    obtain ⟨r, leaps, _, member⟩ := exists_leaps hg (hg.initial_live i hi) run
    exact ⟨i, r, rest, hi, leaps, closed_accepting.mpr ⟨s, member, accepting⟩, len⟩
  · rintro ⟨i, s, rest, hi, leaps, accepting, len⟩
    obtain ⟨m, member, accepting⟩ := closed_accepting.mp accepting
    have live := isLive_of_leaps hg (hg.initial_live i hi) leaps
    have sigma := (mem_closure hg live).mp member
    exact ⟨i, m, rest, hi, (runs_of_leaps leaps).trans (sigma.runs rest), accepting, len⟩

end Graph

end PatternAutomata
