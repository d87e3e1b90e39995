import PatternAutomata.Search.Backtracking
import PatternAutomata.Proofs.SigmaClosure

/-!
# What backtracking finds

A search keeps track of more than it visits: every configuration that one leap from a visited one
leads to is visited too, or still to come, or too late to be of use (`Searching`). When nothing is
left to be done, what is visited takes in all that can be reached, so the search has seen the end
it is after (`backtrack_spec`).
-/
namespace PatternAutomata.Graph

variable {ν : Type} {g : Graph ν} {probe : Probe ν} {earliest : Bool} {window : List Char}
  {i n : Nat}

/-- The place in a window from which a text is left. -/
def Place.At (window : List Char) (p : Place) : Prop :=
  p.rest <:+ window ∧ p.pos + p.rest.length = window.length

/-- How much of a window is consumed when a text is left. -/
def consumed (window u : List Char) : Nat := window.length - u.length

theorem Place.At.consumed {p : Place} (h : Place.At window p) : consumed window p.rest = p.pos := by
  have := h.2
  unfold Graph.consumed
  omega

theorem Place.At.step {p q : Place} {c : Condition ν} (hp : Place.At window p)
    (hq : c.step probe p = .ok (some q)) : Place.At window q := by
  obtain ⟨-, leads, same⟩ := Condition.step_eq_some_iff.mp hq
  exact ⟨leads.suffix.trans hp.1, same.trans hp.2⟩

theorem consumed_mono {u v : List Char} (h : v <:+ u) : consumed window u ≤ consumed window v := by
  have := h.length_le
  unfold consumed
  omega

theorem eq_of_consumed {u v : List Char} (hu : u <:+ window) (hv : v <:+ window)
    (h : consumed window u = consumed window v) : u = v := by
  have := hu.length_le
  have := hv.length_le
  unfold consumed at h
  exact (List.suffix_of_suffix_length_le hu hv (by omega)).eq_of_length (by omega)

/-- The configuration is marked. -/
def Visited (g : Graph ν) (window : List Char) (seen : Marks n) (c : Config) : Prop :=
  seen.contains (consumed window c.2 * g.states.size + c.1) = true

/-- The configurations that a task enters. -/
def Task.Yields (probe : Probe ν) (c : Config) : Task ν → Prop
  | .enter s p => c = (s, p.rest)
  | .attempt t p => t.target = c.1 ∧ t.condition.Leads probe p.rest c.2

/-- The search for the earliest end has no use for the configuration. -/
def IsLateAt (earliest : Bool) (window : List Char) (best : Option Nat) (c : Config) : Prop :=
  earliest = true ∧ ∃ b, best = some b ∧ b ≤ consumed window c.2

theorem isLate_iff {best : Option Nat} {p : Place} (hp : Place.At window p) {s : Nat} :
    isLate earliest best p = true ↔ IsLateAt earliest window best (s, p.rest) := by
  simp [isLate, IsLateAt, hp.consumed, Option.any_eq_true]

/-- The configuration is dealt with. -/
def Covered (g : Graph ν) (probe : Probe ν) (earliest : Bool) (window : List Char)
    (seen : Marks n) (best : Option Nat) (tasks : List (Task ν)) (c : Config) : Prop :=
  Visited g window seen c ∨ IsLateAt earliest window best c ∨ ∃ task ∈ tasks, task.Yields probe c

/-- The task is about a configuration that the search can come to. -/
def Task.Valid (g : Graph ν) (probe : Probe ν) (window : List Char) (i : Nat) : Task ν → Prop
  | .enter s p => Place.At window p ∧
      Relation.ReflTransGen (g.Leaps probe) (i, window) (s, p.rest)
  | .attempt t p => Place.At window p ∧ ∃ s, t ∈ (g.closed s).leaving ∧
      Relation.ReflTransGen (g.Leaps probe) (i, window) (s, p.rest)

/-- What holds at all times of a search that starts in the state `i`. -/
structure Searching (g : Graph ν) (probe : Probe ν) (earliest : Bool) (window : List Char)
    (i : Nat) (seen : Marks n) (best : Option Nat) (tasks : List (Task ν)) : Prop where
  start : Covered g probe earliest window seen best tasks (i, window)
  next : ∀ s u, u <:+ window → g.IsLive s → Visited g window seen (s, u) →
    ∀ c, g.Leaps probe (s, u) c → Covered g probe earliest window seen best tasks c
  counted : ∀ s u, u <:+ window → g.IsLive s → Visited g window seen (s, u) →
    (g.closed s).accepting = true →
      ∃ b, best = some b ∧ if earliest then b ≤ consumed window u else consumed window u ≤ b
  sound : ∀ b, best = some b → g.Accepts probe window b
  valid : ∀ task ∈ tasks, task.Valid g probe window i

theorem Leaps.suffix {a b : Config} (h : g.Leaps probe a b) : b.2 <:+ a.2 := h.runs.suffix

namespace Searching

variable {seen : Marks n} {best : Option Nat} {task : Task ν} {tasks : List (Task ν)}

/-- Tasks may be exchanged for others that deal with the same configurations. -/
theorem exchange {tasks' : List (Task ν)}
    (h : Searching g probe earliest window i seen best (task :: tasks))
    (covers : ∀ c, task.Yields probe c → Covered g probe earliest window seen best tasks' c)
    (more : ∀ t ∈ tasks, t ∈ tasks') (valid : ∀ t ∈ tasks', t.Valid g probe window i) :
    Searching g probe earliest window i seen best tasks' := by
  have carry {c : Config} (hc : Covered g probe earliest window seen best (task :: tasks) c) :
      Covered g probe earliest window seen best tasks' c := by
    rcases hc with visited | late | ⟨t, ht, yields⟩
    · exact .inl visited
    · exact .inr (.inl late)
    · rcases List.mem_cons.mp ht with rfl | ht
      · exact covers c yields
      · exact .inr (.inr ⟨t, more t ht, yields⟩)
  exact ⟨carry h.start, fun s u hu hs visited c leap => carry (h.next s u hu hs visited c leap),
    h.counted, h.sound, valid⟩

theorem drop (h : Searching g probe earliest window i seen best (task :: tasks))
    (covers : ∀ c, task.Yields probe c → Covered g probe earliest window seen best tasks c) :
    Searching g probe earliest window i seen best tasks :=
  h.exchange covers (fun _ => id) fun t ht => h.valid t (by simp [ht])

/-- All that can be reached is visited or too late once nothing is left to be done. -/
theorem visited_or_late (hg : g.Intact) (hi : g.IsLive i)
    (h : Searching g probe earliest window i seen best []) {c : Config}
    (hc : Relation.ReflTransGen (g.Leaps probe) (i, window) c) :
    Visited g window seen c ∨ IsLateAt earliest window best c := by
  have done {c : Config} (hc : Covered g probe earliest window seen best [] c) :
      Visited g window seen c ∨ IsLateAt earliest window best c := by
    rcases hc with visited | late | ⟨_, ht, _⟩
    · exact .inl visited
    · exact .inr late
    · cases ht
  induction hc with
  | refl => exact done h.start
  | @tail b c leaps leap ih =>
    rcases ih with visited | ⟨early, e, he, le⟩
    · exact done (h.next b.1 b.2 (runs_of_leaps leaps).suffix (isLive_of_leaps hg hi leaps)
        visited c leap)
    · exact .inr ⟨early, e, he, Nat.le_trans le (consumed_mono leap.suffix)⟩

theorem isExtreme (hg : g.Intact) (initial : g.initial = some i)
    (h : Searching g probe earliest window i seen best []) :
    IsExtreme earliest (g.Accepts probe window) best := by
  apply IsExtreme.of_bound h.sound
  intro m accepts
  obtain ⟨j, s, u, hj, leaps, accepting, len⟩ := (accepts_iff_leaps hg).mp accepts
  cases initial.symm.trans hj
  have hi := hg.initial_live i initial
  have hm : consumed window u = m := by
    unfold consumed
    omega
  rcases h.visited_or_late hg hi leaps with visited | ⟨early, b, hb, le⟩
  · exact hm ▸ h.counted s u (runs_of_leaps leaps).suffix (isLive_of_leaps hg hi leaps) visited
      accepting
  · exact ⟨b, hb, by simpa [early, ← hm] using le⟩

/-- A search enters a configuration that is neither late nor visited. -/
theorem enter (hg : g.Intact) (hi : g.IsLive i) {s : Nat} {p : Place} {seen' : Marks n}
    {best' : Option Nat} {more : List (Task ν)}
    (h : Searching g probe earliest window i seen best (.enter s p :: tasks))
    (new : seen.mark? (p.pos * g.states.size + s) = some seen')
    (better : ∀ b, best = some b → ∃ b', best' = some b' ∧ if earliest then b' ≤ b else b ≤ b')
    (sound : ∀ b, best' = some b → g.Accepts probe window b)
    (counted : (g.closed s).accepting = true →
      ∃ b, best' = some b ∧ if earliest then b ≤ p.pos else p.pos ≤ b)
    (rest : more = (g.closed s).leaving.map (Task.attempt · p) ∨
      more = [] ∧ earliest = true ∧ best' = some p.pos) :
    Searching g probe earliest window i seen' best' (more ++ tasks) := by
  obtain ⟨hp, reach⟩ := h.valid _ (List.mem_cons_self ..)
  have carry {c : Config} (hc : Covered g probe earliest window seen best (.enter s p :: tasks) c) :
      Covered g probe earliest window seen' best' (more ++ tasks) c := by
    rcases hc with visited | ⟨early, b, hb, le⟩ | ⟨t, ht, yields⟩
    · exact .inl ((Marks.contains_iff_of_mark? new).mpr (.inr visited))
    · obtain ⟨b', hb', le'⟩ := better b hb
      exact .inr (.inl ⟨early, b', hb', Nat.le_trans (by simpa [early] using le') le⟩)
    · rcases List.mem_cons.mp ht with rfl | ht
      · cases yields
        exact .inl ((Marks.contains_iff_of_mark? new).mpr (.inl (by rw [hp.consumed])))
      · exact .inr (.inr ⟨t, by simp [ht], yields⟩)
  -- what is visited now is the entered configuration, or was visited before
  have split {r : Nat} {u : List Char} (hu : u <:+ window) (hr : g.IsLive r)
      (visited : Visited g window seen' (r, u)) :
      (r = s ∧ u = p.rest) ∨ Visited g window seen (r, u) := by
    rcases (Marks.contains_iff_of_mark? new).mp visited with e | old
    · have hs := (isLive_of_leaps hg hi reach).lt
      have hr := hr.lt
      simp only at hs e
      have pos : consumed window u = p.pos := by
        have := congrArg (· / g.states.size) e
        simpa [Nat.mul_comm _ g.states.size, Nat.mul_add_div (Nat.zero_lt_of_lt hs),
          Nat.div_eq_of_lt hs, Nat.div_eq_of_lt hr] using this
      rw [pos] at e
      exact .inl ⟨by omega, eq_of_consumed hu hp.1 (pos.trans hp.consumed.symm)⟩
    · exact .inr old
  refine ⟨carry h.start, fun r u hu hr visited c leap => ?_,
    fun r u hu hr visited accepting => ?_, sound, fun t ht => ?_⟩
  · rcases split hu hr visited with ⟨rfl, rfl⟩ | old
    · rcases rest with rfl | ⟨rfl, early, hb⟩
      · obtain ⟨t, ht, target, leads⟩ := leap
        exact .inr (.inr ⟨.attempt t p, by simp [ht], target, leads⟩)
      · exact .inr (.inl ⟨early, p.pos, hb, hp.consumed ▸ consumed_mono leap.suffix⟩)
    · exact carry (h.next r u hu hr old c leap)
  · rcases split hu hr visited with ⟨rfl, rfl⟩ | old
    · rw [hp.consumed]
      exact counted accepting
    · obtain ⟨b, hb, le⟩ := h.counted r u hu hr old accepting
      obtain ⟨b', hb', le'⟩ := better b hb
      refine ⟨b', hb', ?_⟩
      cases earliest <;> simp at le le' ⊢ <;> omega
  · rcases List.mem_append.mp ht with ht | ht
    · rcases rest with rfl | ⟨rfl, _⟩
      · obtain ⟨t, member, rfl⟩ := List.mem_map.mp ht
        exact ⟨hp, s, member, reach⟩
      · cases ht
    · exact h.valid t (by simp [ht])

end Searching

/-- The place of a valid task lies in range of the marks. -/
theorem key_lt (hs : i < g.states.size) {p : Place} (hp : Place.At window p) :
    p.pos * g.states.size + i < g.states.size * (window.length + 1) := by
  have := hp.2
  calc p.pos * g.states.size + i < (p.pos + 1) * g.states.size := by
        rw [Nat.add_mul]
        omega
    _ ≤ (window.length + 1) * g.states.size := Nat.mul_le_mul_right _ (by omega)
    _ = g.states.size * (window.length + 1) := Nat.mul_comm ..

theorem accepts_of_leaps (hg : g.Intact) (initial : g.initial = some i) {s : Nat} {p : Place}
    (hp : Place.At window p) (reach : Relation.ReflTransGen (g.Leaps probe) (i, window) (s, p.rest))
    (accepting : (g.closed s).accepting = true) : g.Accepts probe window p.pos :=
  (accepts_iff_leaps hg).mpr ⟨i, s, p.rest, initial, reach, accepting, hp.2⟩

theorem Accepts.le {m : Nat} (h : g.Accepts probe window m) : m ≤ window.length := by
  obtain ⟨_, _, rest, _, _, _, len⟩ := accepts_iff.mp h
  omega

theorem later_spec (best : Option Nat) (pos : Nat) :
    ∃ b, later best pos = some b ∧ pos ≤ b ∧ (∀ b', best = some b' → b' ≤ b) ∧
      (b = pos ∨ best = some b) := by
  cases best with
  | none => exact ⟨pos, rfl, Nat.le_refl _, by simp, .inl rfl⟩
  | some b =>
    refine ⟨max b pos, rfl, Nat.le_max_right .., fun b' hb' => ?_, ?_⟩
    · cases hb'
      exact Nat.le_max_left ..
    · rcases Nat.le_total b pos with le | le
      · exact .inl (Nat.max_eq_right le)
      · exact .inr (congrArg some (Nat.max_eq_left le).symm)

/-- A check fails at a configuration that a run comes to. -/
def Falters (g : Graph ν) (probe : Probe ν) (window : List Char) (i : Nat) : Prop :=
  ∃ c, g.Runs probe (i, window) c ∧ ∃ t ∈ g.outgoing c.1, ∃ nested mode negated e,
    t.condition = .check nested mode negated ∧ probe nested mode c.2 = .error e

theorem not_falters (answers : g.Answers probe window) : ¬ g.Falters probe window i := by
  rintro ⟨c, run, t, ht, nested, mode, negated, e, hc, failed⟩
  obtain ⟨found, ok⟩ := answers c.1 t ht nested mode negated hc c.2 run.suffix
  cases failed.symm.trans ok

/-- A search that goes on from a consistent state of affairs ends with the end it is after, unless a
check fails. -/
theorem explore_cases (hg : g.Intact) (initial : g.initial = some i) (closures : Closures g)
    {seen : Marks (g.states.size * (window.length + 1))} {best : Option Nat} {tasks : List (Task ν)}
    (h : Searching g probe earliest window i seen best tasks) :
    (∃ r, explore closures probe earliest seen best tasks = .ok r ∧
      IsExtreme earliest (g.Accepts probe window) r) ∨
    (∃ e, explore closures probe earliest seen best tasks = .error e) ∧
      g.Falters probe window i := by
  have hi := hg.initial_live i initial
  fun_induction explore closures probe earliest seen best tasks with
  | case1 seen best => exact .inl ⟨best, rfl, h.isExtreme hg initial⟩
  | case2 seen best t p tasks late ih =>
    obtain ⟨hp, s, _, _⟩ := h.valid _ (List.mem_cons_self ..)
    obtain ⟨early, b, hb, le⟩ := (isLate_iff hp (s := s)).mp late
    refine ih (h.drop fun c yields => .inr (.inl ⟨early, b, hb, ?_⟩))
    exact Nat.le_trans le (consumed_mono yields.2.suffix)
  | case3 seen best t p tasks _ e he =>
    obtain ⟨hp, s, ht, reach⟩ := h.valid _ (List.mem_cons_self ..)
    obtain ⟨m, hm, out, free⟩ := mem_leaving.mp ht
    obtain ⟨nested, mode, negated, e', hc, failed⟩ := Condition.check_of_step free he
    have live := isLive_of_leaps hg hi reach
    have run := (runs_of_leaps reach).trans (((mem_closure hg live).mp hm).runs p.rest)
    exact .inr ⟨⟨e, rfl⟩, (m, p.rest), run, t, out, nested, mode, negated, e', hc, failed⟩
  | case4 seen best t p tasks _ he ih =>
    obtain ⟨hp, s, ht, _⟩ := h.valid _ (List.mem_cons_self ..)
    obtain ⟨_, _, _, free⟩ := mem_leaving.mp ht
    refine ih (h.drop fun c yields => ?_)
    cases he.symm.trans (Condition.step_of_leads free yields.2)
  | case5 seen best t p tasks _ q hq ih =>
    obtain ⟨hp, s, ht, reach⟩ := h.valid _ (List.mem_cons_self ..)
    obtain ⟨free, leads, -⟩ := Condition.step_eq_some_iff.mp hq
    refine ih (h.exchange (fun c yields => ?_) (fun _ => List.mem_cons_of_mem _) fun u hu => ?_)
    · obtain ⟨target, leads'⟩ := yields
      cases hq.symm.trans (Condition.step_of_leads free leads')
      exact .inr (.inr ⟨_, List.mem_cons_self .., Prod.ext target.symm rfl⟩)
    · rcases List.mem_cons.mp hu with rfl | hu
      · exact ⟨hp.step hq, reach.tail ⟨t, ht, rfl, leads⟩⟩
      · exact h.valid u (by simp [hu])
  | case6 seen best s p tasks late ih =>
    obtain ⟨hp, _⟩ := h.valid _ (List.mem_cons_self ..)
    exact ih (h.drop fun c yields => .inr (.inl (yields ▸ (isLate_iff hp).mp late)))
  | case7 seen best s p tasks _ old ih =>
    obtain ⟨hp, reach⟩ := h.valid _ (List.mem_cons_self ..)
    have lt := key_lt (isLive_of_leaps hg hi reach).lt hp
    refine ih (h.drop fun c yields => .inl ?_)
    rw [yields, Visited, hp.consumed]
    exact Marks.mark?_eq_none_iff.mp old lt
  | case8 seen best s p tasks _ seen' _ closed accepting early zero =>
    obtain ⟨hp, reach⟩ := h.valid _ (List.mem_cons_self ..)
    have accepts := accepts_of_leaps hg initial hp reach (by simpa [closed] using accepting)
    exact .inl ⟨_, rfl, zero ▸ accepts, fun m _ => by simp [early]⟩
  | case9 seen best s p tasks notLate seen' new closed accepting early _ ih =>
    obtain ⟨hp, reach⟩ := h.valid _ (List.mem_cons_self ..)
    have accepts := accepts_of_leaps hg initial hp reach (by simpa [closed] using accepting)
    refine ih (Searching.enter hg hi h new (fun b hb => ⟨_, rfl, ?_⟩) ?_
      (fun _ => ⟨_, rfl, by simp [early]⟩) (.inr ⟨rfl, early, rfl⟩))
    · rw [isLate_iff hp (s := s)] at notLate
      have : p.pos ≤ b := Nat.le_of_not_le fun le =>
        notLate ⟨early, b, hb, hp.consumed.symm ▸ le⟩
      simpa [early] using this
    · rintro b ⟨⟩
      exact accepts
  | case10 seen best s p tasks _ seen' _ closed accepting notEarly empty =>
    obtain ⟨hp, reach⟩ := h.valid _ (List.mem_cons_self ..)
    have accepts := accepts_of_leaps hg initial hp reach (by simpa [closed] using accepting)
    obtain ⟨b, hb, le, _, from'⟩ := later_spec best p.pos
    have all : p.pos = window.length := by simpa [List.isEmpty_iff.mp empty] using hp.2
    refine .inl ⟨_, rfl, hb ▸ ⟨?_, fun m hm => ?_⟩⟩
    · rcases from' with rfl | old
      · exact accepts
      · exact h.sound b old
    · rw [if_neg notEarly]
      exact Nat.le_trans (all ▸ hm.le) le
  | case11 seen best s p tasks _ seen' new closed attempts accepting notEarly _ ih =>
    obtain ⟨hp, reach⟩ := h.valid _ (List.mem_cons_self ..)
    have accepts := accepts_of_leaps hg initial hp reach (by simpa [closed] using accepting)
    obtain ⟨b, hb, le, old, from'⟩ := later_spec best p.pos
    refine ih (h.enter hg hi new (fun b' hb' => ⟨b, hb, ?_⟩) (fun b' hb' => ?_)
      (fun _ => ⟨b, hb, by simpa [notEarly] using le⟩) (.inl (by simp [attempts, closed])))
    · simpa [notEarly] using old b' hb'
    · cases hb.symm.trans hb'
      rcases from' with rfl | old
      · exact accepts
      · exact h.sound b old
  | case12 seen best s p tasks _ seen' new closed attempts rejecting ih =>
    refine ih (h.enter hg hi new (fun b hb => ⟨b, hb, by simp⟩) h.sound (fun accepting => ?_)
      (.inl (by simp [attempts, closed])))
    exact absurd (by simpa [closed] using accepting) rejecting

/-- Backtracking finds the earliest or the latest end, unless a check fails on the way. -/
theorem backtrack_cases (hg : g.Intact) (initial : g.initial = some i) (probe : Probe ν)
    (earliest : Bool) (window : List Char) :
    (∃ r, g.backtrack probe earliest window = .ok r ∧
      IsExtreme earliest (g.Accepts probe window) r) ∨
    (∃ e, g.backtrack probe earliest window = .error e) ∧ g.Falters probe window i := by
  have hp : Place.At window ⟨0, window⟩ := ⟨List.suffix_rfl, Nat.zero_add _⟩
  have unseen (c : Config) :
      ¬ Visited g window (Marks.empty (g.states.size * (window.length + 1))) c := by
    simp [Visited, Marks.contains_empty]
  simp only [backtrack, initial]
  refine explore_cases hg initial g.closures ⟨?_, fun s u _ _ visited => ?_,
    fun s u _ _ visited => ?_, by simp, fun task ht => ?_⟩
  · exact .inr (.inr ⟨_, List.mem_cons_self .., rfl⟩)
  · exact absurd visited (unseen _)
  · exact absurd visited (unseen _)
  · cases List.mem_singleton.mp ht
    exact ⟨hp, .refl⟩

/-- Backtracking finds the earliest or the latest end, provided that all nested automata answer. -/
theorem backtrack_spec (hg : g.Intact) (initial : g.initial = some i) (earliest : Bool)
    (answers : g.Answers probe window) :
    ∃ r, g.backtrack probe earliest window = .ok r ∧
      IsExtreme earliest (g.Accepts probe window) r :=
  (backtrack_cases hg initial probe earliest window).resolve_right fun failed =>
    not_falters answers failed.2

end PatternAutomata.Graph
