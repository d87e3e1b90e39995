import PatternAutomata.Proofs.Mapped
import PatternAutomata.Proofs.Numbering
import Mathlib.Data.List.Forall2

/-!
# Automata that are searched alike

Trying a transition again from the same place changes nothing (`Thins.explore_eq`), since all that
it leads to is visited by then. Two automata whose states stand for each other, and whose
transitions do so up to such repeats, are searched step for step in the same way and fail in the
same way (`Mirrors.backtrack_eq`).
-/
namespace PatternAutomata

theorem Marks.exists_mark? {n : Nat} {m : Marks n} {i : Nat} (lt : i < n)
    (free : m.contains i = false) : ∃ m', m.mark? i = some m' := by
  cases new : m.mark? i with
  | none => cases free.symm.trans (Marks.mark?_eq_none_iff.mp new lt)
  | some m' => exact ⟨m', rfl⟩

@[simp]
theorem Condition.isSigma_map {ν μ : Type} {f : ν → μ} (c : Condition ν) :
    (c.map f).isSigma = c.isSigma := by
  cases c <;> rfl

namespace Graph

section
variable {ν : Type} {g : Graph ν} {closures : Closures g} {probe : Probe ν} {earliest : Bool}
  {n : Nat} {seen seen' : Marks n} {best best' : Option Nat} {task : Task ν}
  {tasks : List (Task ν)}

/-- To enter the state at the place is of no use any more. -/
def Spent (g : Graph ν) (earliest : Bool) (seen : Marks n) (best : Option Nat) (s : Nat)
    (p : Place) : Prop :=
  isLate earliest best p = true ∨ seen.mark? (p.pos * g.states.size + s) = none

/-- Working the task off changes nothing. -/
def Task.Idle (g : Graph ν) (probe : Probe ν) (earliest : Bool) (seen : Marks n)
    (best : Option Nat) : Task ν → Prop
  | .enter s p => Spent g earliest seen best s p
  | .attempt t p => isLate earliest best p = true ∨ t.condition.step probe p = .ok none ∨
      ∃ q, t.condition.step probe p = .ok (some q) ∧ Spent g earliest seen best t.target q

theorem explore_idle (idle : task.Idle g probe earliest seen best) :
    explore closures probe earliest seen best (task :: tasks) =
      explore closures probe earliest seen best tasks := by
  have spent {s : Nat} {p : Place} (h : Spent g earliest seen best s p) :
      explore closures probe earliest seen best (.enter s p :: tasks) =
        explore closures probe earliest seen best tasks := by
    rw [explore]
    rcases h with late | old
    · rw [if_pos late]
    · split
      · rfl
      · split
        · rfl
        · next new => cases old.symm.trans new
  cases task with
  | enter s p => exact spent idle
  | attempt t p =>
    rw [explore]
    rcases idle with late | fails | ⟨q, holds, h⟩
    · rw [if_pos late]
    · simp only [fails, ite_self]
    · simp only [holds, spent h, ite_self]

/-- To enter a state at a place where it has not been. -/
theorem explore_enter {s : Nat} {p : Place} (timely : ¬ isLate earliest best p = true)
    (new : seen.mark? (p.pos * g.states.size + s) = some seen') :
    explore closures probe earliest seen best (.enter s p :: tasks) =
      if (g.closed s).accepting then
        if earliest then
          if p.pos = 0 then .ok (some 0)
          else explore closures probe earliest seen' (some p.pos) tasks
        else
          if p.rest.isEmpty then .ok (later best p.pos)
          else explore closures probe earliest seen' (later best p.pos)
            ((g.closed s).leaving.map (Task.attempt · p) ++ tasks)
      else explore closures probe earliest seen' best
        ((g.closed s).leaving.map (Task.attempt · p) ++ tasks) := by
  rw [explore, if_neg timely]
  split
  · next old => cases old.symm.trans new
  · next seen'' new' =>
    cases new.symm.trans new'
    simp only [Closures.lookup_eq]

/-- A search has gone on: what was of no use before still is of no use. -/
structure Ahead (earliest : Bool) (seen : Marks n) (best : Option Nat) (seen' : Marks n)
    (best' : Option Nat) : Prop where
  marks : ∀ k, seen.mark? k = none → seen'.mark? k = none
  late : ∀ p, isLate earliest best p = true → isLate earliest best' p = true

namespace Ahead

theorem refl : Ahead earliest seen best seen best := ⟨fun _ => id, fun _ => id⟩

theorem trans {seen'' : Marks n} {best'' : Option Nat}
    (h : Ahead earliest seen best seen' best') (k : Ahead earliest seen' best' seen'' best'') :
    Ahead earliest seen best seen'' best'' :=
  ⟨fun i old => k.marks i (h.marks i old), fun p late => k.late p (h.late p late)⟩

theorem of_mark {k : Nat} (new : seen.mark? k = some seen')
    (late : ∀ p, isLate earliest best p = true → isLate earliest best' p = true) :
    Ahead earliest seen best seen' best' := by
  refine ⟨fun j old => Marks.mark?_eq_none_iff.mpr fun lt => ?_, late⟩
  exact (Marks.contains_iff_of_mark? new).mpr (.inr (Marks.mark?_eq_none_iff.mp old lt))

theorem spent (h : Ahead earliest seen best seen' best') {s : Nat} {p : Place}
    (k : Spent g earliest seen best s p) : Spent g earliest seen' best' s p :=
  k.imp (h.late p) (h.marks _)

end Ahead

theorem spent_of_mark {s : Nat} {p : Place}
    (new : seen.mark? (p.pos * g.states.size + s) = some seen') :
    Spent g earliest seen' best s p :=
  .inr (Marks.mark?_eq_none_iff.mpr fun _ => (Marks.contains_iff_of_mark? new).mpr (.inl rfl))

/-- A search comes to its end within the first tasks, whatever follows them, or it goes on with
what follows them once they are idle. -/
def Splits (closures : Closures g) (probe : Probe ν) (earliest : Bool) (seen : Marks n)
    (best : Option Nat) (tasks : List (Task ν)) : Prop :=
  (∃ r, ∀ more, explore closures probe earliest seen best (tasks ++ more) = r) ∨
    ∃ (seen' : Marks n) (best' : Option Nat), Ahead earliest seen best seen' best' ∧
      (∀ task ∈ tasks, task.Idle g probe earliest seen' best') ∧
        ∀ more, explore closures probe earliest seen best (tasks ++ more) =
          explore closures probe earliest seen' best' more

/-- A step of the search: the first task makes way for others. -/
theorem Splits.step {tasks' : List (Task ν)}
    (h : Splits closures probe earliest seen' best' tasks')
    (ahead : Ahead earliest seen best seen' best')
    (eq : ∀ more, explore closures probe earliest seen best (task :: tasks ++ more) =
      explore closures probe earliest seen' best' (tasks' ++ more))
    (idle : ∀ (seen'' : Marks n) (best'' : Option Nat), Ahead earliest seen' best' seen'' best'' →
      (∀ t ∈ tasks', t.Idle g probe earliest seen'' best'') →
        task.Idle g probe earliest seen'' best'')
    (rest : ∀ t ∈ tasks, t ∈ tasks') :
    Splits closures probe earliest seen best (task :: tasks) := by
  rcases h with ⟨r, same⟩ | ⟨seen'', best'', later, done, same⟩
  · exact .inl ⟨r, fun more => (eq more).trans (same more)⟩
  · refine .inr ⟨seen'', best'', ahead.trans later, fun t ht => ?_, fun more =>
      (eq more).trans (same more)⟩
    rcases List.mem_cons.mp ht with rfl | ht
    · exact idle seen'' best'' later done
    · exact done t (rest t ht)

/-- A step of the search that leaves out an idle task. -/
theorem Splits.skip (h : Splits closures probe earliest seen best tasks)
    (idle : task.Idle g probe earliest seen best) :
    Splits closures probe earliest seen best (task :: tasks) := by
  refine h.step .refl (fun more => explore_idle idle) (fun seen' best' ahead _ => ?_) fun _ => id
  cases task with
  | enter s p => exact ahead.spent idle
  | attempt t p =>
    exact idle.imp (ahead.late p) (Or.imp_right fun ⟨q, holds, h⟩ => ⟨q, holds, ahead.spent h⟩)

theorem splits (closures : Closures g) (probe : Probe ν) (earliest : Bool) (seen : Marks n)
    (best : Option Nat) (tasks : List (Task ν)) :
    Splits closures probe earliest seen best tasks := by
  fun_induction explore closures probe earliest seen best tasks with
  | case1 seen best => exact .inr ⟨seen, best, .refl, by simp, fun _ => rfl⟩
  | case2 seen best t p tasks late ih => exact ih.skip (.inl late)
  | case3 seen best t p tasks timely e fails =>
    refine .inl ⟨.error e, fun more => ?_⟩
    rw [List.cons_append, explore, if_neg timely]
    simp only [fails]
  | case4 seen best t p tasks _ fails ih => exact ih.skip (.inr (.inl fails))
  | case5 seen best t p tasks timely q holds ih =>
    refine ih.step .refl (fun more => ?_) (fun _ _ _ done => ?_) fun _ => List.mem_cons_of_mem _
    · rw [List.cons_append, explore, if_neg timely]
      simp only [holds, List.cons_append]
    · exact .inr (.inr ⟨q, holds, done _ (List.mem_cons_self ..)⟩)
  | case6 seen best s p tasks late ih => exact ih.skip (.inl late)
  | case7 seen best s p tasks _ old ih => exact ih.skip (.inr old)
  | case8 seen best s p tasks timely seen' new closed accepting early zero =>
    refine .inl ⟨.ok (some 0), fun more => ?_⟩
    rw [List.cons_append, explore_enter timely new, ← Closures.lookup_eq closures,
      if_pos accepting, if_pos early, if_pos zero]
  | case9 seen best s p tasks timely seen' new closed accepting early notZero ih =>
    refine ih.step (.of_mark new fun q late => ?_) (fun more => ?_)
      (fun _ _ ahead _ => ahead.spent (spent_of_mark new)) fun _ => id
    · simp only [isLate, early, Bool.true_and, Option.any_eq_true, decide_eq_true_eq] at timely late
      obtain ⟨b, hb, le⟩ := late
      simp only [isLate, early, Bool.true_and, Option.any_some, decide_eq_true_eq]
      exact Nat.le_trans (Nat.le_of_not_le fun le' => timely ⟨b, hb, le'⟩) le
    · rw [List.cons_append, explore_enter timely new, ← Closures.lookup_eq closures,
        if_pos accepting, if_pos early, if_neg notZero]
  | case10 seen best s p tasks timely seen' new closed accepting notEarly empty =>
    refine .inl ⟨.ok (later best p.pos), fun more => ?_⟩
    rw [List.cons_append, explore_enter timely new, ← Closures.lookup_eq closures,
      if_pos accepting, if_neg notEarly, if_pos empty]
  | case11 seen best s p tasks timely seen' new closed attempts accepting notEarly ahead ih =>
    refine ih.step (.of_mark new fun q late => ?_) (fun more => ?_)
      (fun _ _ ahead _ => ahead.spent (spent_of_mark new)) fun _ => List.mem_append_right _
    · simp [isLate, notEarly] at late
    · rw [List.cons_append, explore_enter timely new, ← Closures.lookup_eq closures,
        if_pos accepting, if_neg notEarly, if_neg ahead, List.append_assoc]
  | case12 seen best s p tasks timely seen' new closed attempts rejecting ih =>
    refine ih.step (.of_mark new fun _ => id) (fun more => ?_)
      (fun _ _ ahead _ => ahead.spent (spent_of_mark new)) fun _ => List.mem_append_right _
    rw [List.cons_append, explore_enter timely new, ← Closures.lookup_eq closures,
      if_neg rejecting, List.append_assoc]

/-- The second list is the first one without some elements that occur before. -/
inductive Thins {α : Type} : List α → List α → Prop where
  | nil : Thins [] []
  | keep {xs ys x} (h : Thins xs ys) : Thins (xs ++ [x]) (ys ++ [x])
  | drop {xs ys x} (h : Thins xs ys) (again : x ∈ xs) : Thins (xs ++ [x]) ys

namespace Thins

variable {α β : Type}

theorem refl (xs : List α) : Thins xs xs := by
  induction xs using List.reverseRecOn with
  | nil => exact .nil
  | append_singleton xs x ih => exact ih.keep

theorem filterMap {xs ys : List α} (h : Thins xs ys) (f : α → Option β) :
    Thins (xs.filterMap f) (ys.filterMap f) := by
  induction h with
  | nil => exact .nil
  | @keep xs ys x _ ih =>
    rw [List.filterMap_append, List.filterMap_append]
    cases hx : f x with
    | none => simpa [hx] using ih
    | some y => simpa [hx] using ih.keep
  | @drop xs ys x _ again ih =>
    rw [List.filterMap_append]
    cases hx : f x with
    | none => simpa [hx] using ih
    | some y => simpa [hx] using ih.drop (List.mem_filterMap.mpr ⟨x, again, hx⟩)

theorem filter {xs ys : List α} (h : Thins xs ys) (p : α → Bool) :
    Thins (xs.filter p) (ys.filter p) := by
  simpa only [List.filterMap_eq_filter] using h.filterMap (Option.guard p)

theorem map {xs ys : List α} (h : Thins xs ys) (f : α → β) : Thins (xs.map f) (ys.map f) := by
  simpa only [List.filterMap_eq_map] using h.filterMap (some ∘ f)

theorem distinct [DecidableEq α] [Hashable α] (xs : List α) : Thins xs (distinct xs) := by
  induction xs using List.reverseRecOn with
  | nil => exact .nil
  | append_singleton xs x ih =>
    rw [distinct_append]
    split
    · next again => exact ih.drop again
    · exact ih.keep

end Thins

/-- A transition need not be tried again from the same place. -/
theorem Thins.explore_eq {ts us : List (Transition ν)} (h : Thins ts us) (p : Place)
    (tasks : List (Task ν)) :
    explore closures probe earliest seen best (ts.map (Task.attempt · p) ++ tasks) =
      explore closures probe earliest seen best (us.map (Task.attempt · p) ++ tasks) := by
  induction h generalizing tasks with
  | nil => rfl
  | keep _ ih => simpa using ih _
  | @drop xs ys x _ again ih =>
    rw [List.map_append, List.append_assoc]
    have known : Task.attempt x p ∈ xs.map (Task.attempt · p) := List.mem_map_of_mem again
    rcases splits closures probe earliest seen best (xs.map (Task.attempt · p)) with
      ⟨r, same⟩ | ⟨seen', best', -, done, same⟩
    · rw [← ih, same, same]
    · rw [← ih, same, same]
      exact explore_idle (done _ known)

end

/-- The places of two configurations among the marks are the same only for equal configurations. -/
theorem key_inj {n k l s r : Nat} (hs : s < n) (hr : r < n) :
    k * n + s = l * n + r ↔ k = l ∧ s = r := by
  constructor
  · intro same
    have place : k = l := by
      have := congrArg (· / n) same
      simpa [Nat.mul_comm _ n, Nat.mul_add_div (Nat.zero_lt_of_lt hs), Nat.div_eq_of_lt hs,
        Nat.div_eq_of_lt hr] using this
    subst place
    exact ⟨rfl, Nat.add_left_cancel same⟩
  · rintro ⟨rfl, rfl⟩
    rfl

section
variable {ν μ : Type} {g : Graph ν} {h : Graph μ} {probe : Probe ν} {probe' : Probe μ}
  {stands : Nat → Nat → Prop} {earliest : Bool} {window : List Char}

/-- The transitions lead to states that stand for each other, by steps that come to the same. -/
def Corresponds (probe : Probe ν) (probe' : Probe μ) (stands : Nat → Nat → Prop)
    (t : Transition ν) (u : Transition μ) : Prop :=
  stands t.target u.target ∧ ∀ p, u.condition.step probe' p = t.condition.step probe p

/-- States of two automata stand for each other, one for one, with the same acceptance and with
transitions that correspond, up to repeats in the first automaton. -/
structure Mirrors (g : Graph ν) (probe : Probe ν) (h : Graph μ) (probe' : Probe μ)
    (stands : Nat → Nat → Prop) : Prop where
  bound : ∀ s r, stands s r → s < g.states.size ∧ r < h.states.size
  same : ∀ s r, stands s r → ∀ s' r', stands s' r' → (s = s' ↔ r = r')
  accepting : ∀ s r, stands s r → (h.closed r).accepting = (g.closed s).accepting
  leaving : ∀ s r, stands s r → ∃ us,
    List.Forall₂ (Corresponds probe probe' stands) (g.closed s).leaving us ∧
      Thins us (h.closed r).leaving
  initial : Option.Rel stands g.initial h.initial

/-- The tasks are the same for states that stand for each other. -/
inductive Task.Like (probe : Probe ν) (probe' : Probe μ) (stands : Nat → Nat → Prop)
    (window : List Char) : Task ν → Task μ → Prop where
  | enter {s r p} (related : stands s r) (hp : Place.At window p) :
      Task.Like probe probe' stands window (.enter s p) (.enter r p)
  | attempt {t u p} (related : Corresponds probe probe' stands t u) (hp : Place.At window p) :
      Task.Like probe probe' stands window (.attempt t p) (.attempt u p)

/-- States that stand for each other are marked at the same places. -/
def MarkedAlike (g : Graph ν) (h : Graph μ) (stands : Nat → Nat → Prop) (window : List Char)
    (seen : Marks (g.states.size * (window.length + 1)))
    (seen' : Marks (h.states.size * (window.length + 1))) : Prop :=
  ∀ s r, stands s r → ∀ k, k ≤ window.length →
    seen.contains (k * g.states.size + s) = seen'.contains (k * h.states.size + r)

namespace Mirrors

variable {seen : Marks (g.states.size * (window.length + 1))}
  {seen' : Marks (h.states.size * (window.length + 1))} {s r : Nat} {p : Place}

theorem mark?_eq_none (m : Mirrors g probe h probe' stands)
    (alike : MarkedAlike g h stands window seen seen') (related : stands s r)
    (hp : Place.At window p) (old : seen.mark? (p.pos * g.states.size + s) = none) :
    seen'.mark? (p.pos * h.states.size + r) = none := by
  have le : p.pos ≤ window.length := hp.2 ▸ Nat.le_add_right ..
  rw [Marks.mark?_eq_none_iff] at old ⊢
  intro _
  rw [← alike s r related p.pos le]
  exact old (key_lt (m.bound s r related).1 hp)

theorem mark?_eq_some (m : Mirrors g probe h probe' stands)
    (alike : MarkedAlike g h stands window seen seen') (related : stands s r)
    (hp : Place.At window p) {more : Marks (g.states.size * (window.length + 1))}
    (new : seen.mark? (p.pos * g.states.size + s) = some more) :
    ∃ more', seen'.mark? (p.pos * h.states.size + r) = some more' ∧
      MarkedAlike g h stands window more more' := by
  have le : p.pos ≤ window.length := hp.2 ▸ Nat.le_add_right ..
  obtain ⟨hs, hr⟩ := m.bound s r related
  obtain ⟨-, free⟩ := Marks.lt_of_mark? new
  rw [alike s r related p.pos le] at free
  obtain ⟨more', new'⟩ := Marks.exists_mark? (key_lt hr hp) free
  refine ⟨more', new', fun s' r' related' k hk => ?_⟩
  rw [Bool.eq_iff_iff, Marks.contains_iff_of_mark? new, Marks.contains_iff_of_mark? new',
    alike s' r' related' k hk, key_inj (m.bound _ _ related').1 hs,
    key_inj (m.bound _ _ related').2 hr, m.same s' r' related' s r related]

/-- What is to be tried after a state is entered corresponds. -/
theorem attempts (hp : Place.At window p) {ts : List (Transition ν)} {us : List (Transition μ)}
    (related : List.Forall₂ (Corresponds probe probe' stands) ts us) {tasks : List (Task ν)}
    {tasks' : List (Task μ)}
    (rest : List.Forall₂ (Task.Like probe probe' stands window) tasks tasks') :
    List.Forall₂ (Task.Like probe probe' stands window)
      (ts.map (Task.attempt · p) ++ tasks) (us.map (Task.attempt · p) ++ tasks') := by
  induction related with
  | nil => exact rest
  | cons head _ ih => exact .cons (.attempt head hp) ih

/-- The searches take the same course. -/
theorem explore_eq (m : Mirrors g probe h probe' stands) (closures : Closures g)
    (closures' : Closures h) {seen : Marks (g.states.size * (window.length + 1))}
    {best : Option Nat} {tasks : List (Task ν)} :
    ∀ {seen' : Marks (h.states.size * (window.length + 1))} {tasks' : List (Task μ)},
      MarkedAlike g h stands window seen seen' →
      List.Forall₂ (Task.Like probe probe' stands window) tasks tasks' →
        explore closures' probe' earliest seen' best tasks' =
          explore closures probe earliest seen best tasks := by
  fun_induction explore closures probe earliest seen best tasks
  case case1 seen best =>
    rintro seen' _ _ ⟨⟩
    rw [explore]
  case case2 seen best t p tasks late ih =>
    rintro seen' _ alike (_ | ⟨⟨⟩, rest⟩)
    exact Eq.trans (explore_idle (.inl late)) (ih alike rest)
  case case3 seen best t p tasks timely e fails =>
    rintro seen' _ alike (_ | ⟨⟨⟩ | ⟨⟨_, step⟩, hp⟩, rest⟩)
    rw [explore, if_neg timely]
    simp only [(step p).trans fails]
  case case4 seen best t p tasks _ fails ih =>
    rintro seen' _ alike (_ | ⟨⟨⟩ | ⟨⟨_, step⟩, hp⟩, rest⟩)
    exact Eq.trans (explore_idle (.inr (.inl ((step p).trans fails)))) (ih alike rest)
  case case5 seen best t p tasks timely q holds ih =>
    rintro seen' _ alike (_ | ⟨⟨⟩ | ⟨⟨target, step⟩, hp⟩, rest⟩)
    rw [explore, if_neg timely]
    simp only [(step p).trans holds]
    exact ih alike (.cons (.enter target (hp.step holds)) rest)
  case case6 seen best s p tasks late ih =>
    rintro seen' _ alike (_ | ⟨⟨⟩, rest⟩)
    exact Eq.trans (explore_idle (.inl late)) (ih alike rest)
  case case7 seen best s p tasks _ old ih =>
    rintro seen' _ alike (_ | ⟨⟨related, hp⟩, rest⟩)
    exact Eq.trans (explore_idle (.inr (m.mark?_eq_none alike related hp old))) (ih alike rest)
  case case8 seen best s p tasks timely more new closed accepting early zero =>
    rintro seen' _ alike (_ | ⟨⟨related, hp⟩, rest⟩)
    obtain ⟨more', new', alike'⟩ := m.mark?_eq_some alike related hp new
    rw [explore_enter timely new', m.accepting _ _ related, ← Closures.lookup_eq closures,
      if_pos accepting, if_pos early, if_pos zero]
  case case9 seen best s p tasks timely more new closed accepting early notZero ih =>
    rintro seen' _ alike (_ | ⟨⟨related, hp⟩, rest⟩)
    obtain ⟨more', new', alike'⟩ := m.mark?_eq_some alike related hp new
    rw [explore_enter timely new', m.accepting _ _ related, ← Closures.lookup_eq closures,
      if_pos accepting, if_pos early, if_neg notZero]
    exact ih alike' rest
  case case10 seen best s p tasks timely more new closed accepting notEarly empty =>
    rintro seen' _ alike (_ | ⟨⟨related, hp⟩, rest⟩)
    obtain ⟨more', new', alike'⟩ := m.mark?_eq_some alike related hp new
    rw [explore_enter timely new', m.accepting _ _ related, ← Closures.lookup_eq closures,
      if_pos accepting, if_neg notEarly, if_pos empty]
  case case11 seen best s p tasks timely more new closed attempts accepting notEarly ahead ih =>
    rintro seen' _ alike (_ | ⟨⟨related, hp⟩, rest⟩)
    obtain ⟨more', new', alike'⟩ := m.mark?_eq_some alike related hp new
    obtain ⟨us, matched, thin⟩ := m.leaving _ _ related
    rw [explore_enter timely new', m.accepting _ _ related, ← Closures.lookup_eq closures,
      if_pos accepting, if_neg notEarly, if_neg ahead, ← thin.explore_eq]
    rw [← Closures.lookup_eq closures] at matched
    exact ih alike' (Mirrors.attempts hp matched rest)
  case case12 seen best s p tasks timely more new closed attempts rejecting ih =>
    rintro seen' _ alike (_ | ⟨⟨related, hp⟩, rest⟩)
    obtain ⟨more', new', alike'⟩ := m.mark?_eq_some alike related hp new
    obtain ⟨us, matched, thin⟩ := m.leaving _ _ related
    rw [explore_enter timely new', m.accepting _ _ related, ← Closures.lookup_eq closures,
      if_neg rejecting, ← thin.explore_eq]
    rw [← Closures.lookup_eq closures] at matched
    exact ih alike' (Mirrors.attempts hp matched rest)

theorem backtrack_eq (m : Mirrors g probe h probe' stands) :
    h.backtrack probe' earliest window = g.backtrack probe earliest window := by
  have start := m.initial
  unfold backtrack
  generalize g.initial = i, h.initial = j at start
  cases start with
  | none => rfl
  | some related =>
    refine m.explore_eq g.closures h.closures (fun s r _ k _ => ?_) (.cons (.enter related ?_) .nil)
    · rw [Marks.contains_empty, Marks.contains_empty]
    · exact ⟨List.suffix_rfl, Nat.zero_add _⟩

end Mirrors

end

section
variable {ν : Type} (g : Graph ν) {seen seen' : Marks g.states.size} {s : Nat}
  {pending : List Nat}

theorem closureFrom_nil : g.closureFrom seen [] = [] := by rw [closureFrom]

theorem closureFrom_old (old : seen.mark? s = none) :
    g.closureFrom seen (s :: pending) = g.closureFrom seen pending := by
  rw [closureFrom]
  split
  · rfl
  · next new => cases old.symm.trans new

theorem closureFrom_new (new : seen.mark? s = some seen') :
    g.closureFrom seen (s :: pending) = s :: g.closureFrom seen' (g.sigmaTargets s ++ pending) := by
  rw [closureFrom]
  split
  · next old => cases old.symm.trans new
  · next new' => cases new.symm.trans new'; rfl

end

/-- New nested automata leave the sigma transitions as they are. -/
theorem sigmaTargets_replace {ν μ : Type} {f : ν → μ} (g : Graph ν) (s : Nat) :
    (g.replace f).sigmaTargets s = g.sigmaTargets s := by
  unfold sigmaTargets
  rw [outgoing_replace, List.filterMap_map]
  refine List.filterMap_congr fun t _ => ?_
  simp only [Function.comp_apply, Transition.map, Condition.isSigma_map]

theorem closureFrom_replace {ν μ : Type} {f : ν → μ} (g : Graph ν) (seen : Marks g.states.size)
    (pending : List Nat) : (g.replace f).closureFrom seen pending = g.closureFrom seen pending := by
  fun_induction closureFrom g seen pending with
  | case1 => exact closureFrom_nil (g.replace f)
  | case2 seen s pending old ih => exact (closureFrom_old (g.replace f) old).trans ih
  | case3 seen s pending seen' new ih =>
    refine (closureFrom_new (g.replace f) new).trans (congrArg (s :: ·) ?_)
    rw [sigmaTargets_replace]
    exact ih

theorem closed_replace {ν μ : Type} {f : ν → μ} (g : Graph ν) (s : Nat) :
    (g.replace f).closed s =
      ⟨(g.closed s).accepting, (g.closed s).leaving.map (Transition.map f)⟩ := by
  have members : (g.replace f).closure s = g.closure s := closureFrom_replace g _ _
  have accepting : (g.replace f).isAccepting = g.isAccepting := rfl
  simp only [closed, members, accepting, outgoing_replace, List.map_flatMap, List.filter_map,
    Function.comp_def, Transition.map, Condition.isSigma_map]

/-- To probe what replaces nested automata is to probe them. -/
theorem backtrack_replace {ν μ : Type} {f : ν → μ} {probe : Probe μ} {g : Graph ν} (hg : g.Intact)
    (earliest : Bool) (window : List Char) :
    (g.replace f).backtrack probe earliest window =
      g.backtrack (fun n => probe (f n)) earliest window := by
  have m : Mirrors g (fun n => probe (f n)) (g.replace f) probe fun s r => s = r ∧ g.IsLive s := by
    refine ⟨?_, ?_, ?_, ?_, ?_⟩
    · rintro s _ ⟨rfl, live⟩
      exact ⟨live.lt, live.lt⟩
    · rintro s _ ⟨rfl, -⟩ s' _ ⟨rfl, -⟩
      rfl
    · rintro s _ ⟨rfl, -⟩
      rw [closed_replace]
    · rintro s _ ⟨rfl, -⟩
      refine ⟨_, ?_, by rw [closed_replace]; exact .refl _⟩
      rw [List.forall₂_map_right_iff, List.forall₂_same]
      intro t ht
      obtain ⟨m, -, out, -⟩ := mem_leaving.mp ht
      exact ⟨⟨rfl, hg.isLive_target out⟩, fun p => Condition.step_map t.condition p⟩
    · change Option.Rel _ g.initial g.initial
      cases hi : g.initial with
      | none => exact .none
      | some i => exact .some ⟨rfl, hg.initial_live i hi⟩
  exact m.backtrack_eq

end Graph

end PatternAutomata
