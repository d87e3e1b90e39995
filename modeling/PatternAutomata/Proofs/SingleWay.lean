import PatternAutomata.Search.Walk
import PatternAutomata.Proofs.Backtracking
import Mathlib.Data.List.Pairwise

/-!
# What a single way finds

A walk that comes to an end has gone everywhere: at each configuration it saw at most one transition
apply, so that all that can be reached lies on its way, also where it is cut because it would come
back to a state without having consumed anything. It therefore ends with the end it is after
(`walk_spec`), and it fails only where two transitions apply or a check fails (`walk_ok`). The ways
in which one step of it goes are stated last.
-/
namespace PatternAutomata.Graph

variable {ν : Type} {g : Graph ν} {probe : Probe ν} {earliest : Bool} {window : List Char} {i : Nat}

/-- The transition applies at a place. -/
def Applies (probe : Probe ν) (p : Place) (t : Transition ν) : Prop :=
  ∃ q, t.condition.step probe p = .ok (some q)

/-- At most one of the transitions applies at a place, and no check fails. -/
def Settles (probe : Probe ν) (p : Place) (ts : List (Transition ν)) : Prop :=
  (∀ t ∈ ts, ∃ q, t.condition.step probe p = .ok q) ∧
    ts.Pairwise fun t u => ¬ (Applies probe p t ∧ Applies probe p u)

theorem Settles.of_cons {p : Place} {t : Transition ν} {ts : List (Transition ν)}
    (h : Settles probe p (t :: ts)) : Settles probe p ts :=
  ⟨fun u hu => h.1 u (by simp [hu]), (List.pairwise_cons.mp h.2).2⟩

theorem Settles.unique {p : Place} {ts : List (Transition ν)} (h : Settles probe p ts)
    {t u : Transition ν} (ht : t ∈ ts) (hu : u ∈ ts) (applies : Applies probe p t)
    (applies' : Applies probe p u) : t = u := by
  have : Std.Symm fun t u => ¬ (Applies probe p t ∧ Applies probe p u) :=
    ⟨fun _ _ k both => k both.symm⟩
  by_contra ne
  exact h.2.forall ht hu ne ⟨applies, applies'⟩

/-- A sigma transition is a fault. -/
theorem Settles.free {p : Place} {ts : List (Transition ν)} (h : Settles probe p ts) :
    ∀ t ∈ ts, t.condition.isSigma = false := by
  intro t ht
  obtain ⟨q, hq⟩ := h.1 t ht
  cases hc : t.condition with
  | sigma =>
    rw [hc, Condition.step] at hq
    cases hq
  | char c => rfl
  | set s => rfl
  | check nested mode negated => rfl

/-- A choice that succeeds has looked at all transitions. -/
theorem choose_settles {state : Nat} {p : Place} {taken chosen : Option (Nat × Place)}
    {ts : List (Transition ν)} (h : choose probe state p taken ts = .ok chosen) :
    Settles probe p ts ∧ (taken ≠ none → ∀ t ∈ ts, ¬ Applies probe p t) := by
  induction ts generalizing taken with
  | nil => exact ⟨⟨by simp, .nil⟩, by simp⟩
  | cons t rest ih =>
    rw [choose] at h
    split at h
    · cases h
    · next same =>
      obtain ⟨⟨answers, unique⟩, none⟩ := ih h
      have idle : ¬ Applies probe p t := by
        intro applies
        obtain ⟨q, hq⟩ := applies
        cases same.symm.trans hq
      refine ⟨⟨List.forall_mem_cons.mpr ⟨⟨_, same⟩, answers⟩,
        List.pairwise_cons.mpr ⟨fun u _ both => idle both.1, unique⟩⟩, fun k => ?_⟩
      exact List.forall_mem_cons.mpr ⟨idle, none k⟩
    · next q hq =>
      split at h
      · cases h
      · obtain ⟨⟨answers, unique⟩, none⟩ := ih h
        refine ⟨⟨List.forall_mem_cons.mpr ⟨⟨_, hq⟩, answers⟩,
          List.pairwise_cons.mpr ⟨fun u hu both => none (by simp) u hu both.2, unique⟩⟩, ?_⟩
        exact fun k => absurd rfl k

/-- A choice succeeds if at most one transition applies. -/
theorem exists_choose {state : Nat} {p : Place} {taken : Option (Nat × Place)}
    {ts : List (Transition ν)} (h : Settles probe p ts)
    (free : taken ≠ none → ∀ t ∈ ts, ¬ Applies probe p t) :
    ∃ chosen, choose probe state p taken ts = .ok chosen := by
  induction ts generalizing taken with
  | nil => exact ⟨taken, rfl⟩
  | cons t rest ih =>
    obtain ⟨q, hq⟩ := h.1 t (List.mem_cons_self ..)
    rw [choose, hq]
    cases q with
    | none => exact ih h.of_cons fun k u hu => free k u (by simp [hu])
    | some q =>
      cases taken with
      | some _ => exact absurd ⟨q, hq⟩ (free (by simp) t (List.mem_cons_self ..))
      | none =>
        exact ih h.of_cons fun _ u hu applies =>
          (List.pairwise_cons.mp h.2).1 u hu ⟨⟨q, hq⟩, applies⟩

/-- What is chosen is the transition that applies, if there is one. -/
theorem choose_cases {state : Nat} {p : Place} {taken chosen : Option (Nat × Place)}
    {ts : List (Transition ν)} (h : choose probe state p taken ts = .ok chosen) :
    (chosen = taken ∧ ∀ t ∈ ts, ¬ Applies probe p t) ∨
      (taken = none ∧ ∃ t ∈ ts, ∃ q, t.condition.step probe p = .ok (some q) ∧
        chosen = some (t.target, q)) := by
  induction ts generalizing taken with
  | nil => exact .inl ⟨(Except.ok.inj h).symm, by simp⟩
  | cons t rest ih =>
    rw [choose] at h
    split at h
    · cases h
    · next same =>
      have idle : ¬ Applies probe p t := by
        intro applies
        obtain ⟨q, hq⟩ := applies
        cases same.symm.trans hq
      rcases ih h with ⟨e, none⟩ | ⟨e, u, hu, found⟩
      · exact .inl ⟨e, List.forall_mem_cons.mpr ⟨idle, none⟩⟩
      · exact .inr ⟨e, u, by simp [hu], found⟩
    · next q hq =>
      split at h
      · cases h
      · rcases ih h with ⟨e, _⟩ | ⟨e, _⟩
        · exact .inr ⟨rfl, t, by simp, q, hq, e⟩
        · cases e

/-- The configurations of a walk: it does not go on from where it stops. -/
def Advances (g : Graph ν) (probe : Probe ν) (earliest : Bool) (a b : Config) : Prop :=
  ¬ (earliest = true ∧ g.isAccepting a.1 = true) ∧ g.Moves probe a b

/-- The place in a window at which a configuration is. -/
def placeOf (window : List Char) (c : Config) : Place := ⟨consumed window c.2, c.2⟩

theorem Place.At.placeOf_eq {p : Place} (h : Place.At window p) (s : Nat) :
    placeOf window (s, p.rest) = p := by rw [placeOf, h.consumed]

/-- Wherever a walk comes to, at most one transition applies and no check fails. -/
def Single (g : Graph ν) (probe : Probe ν) (earliest : Bool) (window : List Char) (i : Nat) :
    Prop :=
  ∀ c, Relation.ReflTransGen (g.Advances probe earliest) (i, window) c →
    ¬ (earliest = true ∧ g.isAccepting c.1 = true) →
      Settles probe (placeOf window c) (g.outgoing c.1)

theorem moves_of_step {s : Nat} {p q : Place} {t : Transition ν} (ht : t ∈ g.outgoing s)
    (hq : t.condition.step probe p = .ok (some q)) :
    g.Moves probe (s, p.rest) (t.target, q.rest) :=
  ⟨t, ht, rfl, (Condition.step_eq_some_iff.mp hq).2.1⟩

/-- If at most one transition applies, a move can only be made by it. -/
theorem Moves.applies {s : Nat} {p : Place} {c : Config} (settles : Settles probe p (g.outgoing s))
    (h : g.Moves probe (s, p.rest) c) : ∃ t ∈ g.outgoing s, t.target = c.1 ∧
      t.condition.step probe p = .ok (some ⟨p.pos + p.rest.length - c.2.length, c.2⟩) := by
  obtain ⟨t, ht, target, leads⟩ := h
  exact ⟨t, ht, target, Condition.step_of_leads (settles.free t ht) leads⟩

theorem eq_of_step_of_not_lt {p q : Place} {t : Transition ν}
    (hq : t.condition.step probe p = .ok (some q)) (h : ¬ p.pos < q.pos) : q = p := by
  rcases Condition.place_of_step hq with e | ⟨_, _, e⟩
  · exact e
  · omega

/-- The transition of a choice. -/
theorem exists_of_choose {state next : Nat} {p q : Place} {ts : List (Transition ν)}
    (h : choose probe state p none ts = .ok (some (next, q))) :
    ∃ t ∈ ts, t.target = next ∧ t.condition.step probe p = .ok (some q) := by
  rcases choose_cases h with ⟨e, _⟩ | ⟨_, t, ht, r, hr, e⟩
  · cases e
  · cases e
    exact ⟨t, ht, rfl, hr⟩

/-- Where a choice succeeds there is no other move. -/
theorem Moves.eq_of_choose {state s next : Nat} {p q : Place} {c : Config}
    (h : choose probe state p none (g.outgoing s) = .ok (some (next, q)))
    (move : g.Moves probe (s, p.rest) c) : c = (next, q.rest) := by
  have settles := (choose_settles h).1
  obtain ⟨t, ht, rfl, hq⟩ := exists_of_choose h
  obtain ⟨u, hu, target, hr⟩ := move.applies settles
  have same : t = u := settles.unique ht hu ⟨q, hq⟩ ⟨_, hr⟩
  subst same
  cases hq.symm.trans hr
  exact Prod.ext target.symm rfl

/-- A walk ends if it only comes to where at most one transition applies. -/
theorem walkFrom_ok {best : Option Nat} {seen : Marks g.states.size} {s : Nat} {p : Place}
    (single : g.Single probe earliest window i) (hp : Place.At window p)
    (reach : Relation.ReflTransGen (g.Advances probe earliest) (i, window) (s, p.rest)) :
    ∃ r, g.walkFrom probe earliest best seen s p = .ok r := by
  fun_induction walkFrom g probe earliest best seen s p with
  | case1 best seen s p best' stops => exact ⟨_, rfl⟩
  | case2 best seen s p going e he =>
    have settles := single _ reach (by simpa using going)
    rw [hp.placeOf_eq] at settles
    obtain ⟨chosen, hc⟩ : ∃ chosen, choose probe s p none (g.outgoing s) = .ok chosen :=
      exists_choose settles (by simp)
    cases he.symm.trans hc
  | case3 best seen s p best' going he => exact ⟨_, rfl⟩
  | case4 best seen s p best' going next q k lt fresh ih =>
    obtain ⟨t, ht, rfl, hq⟩ := exists_of_choose k
    exact ih (hp.step hq) (reach.tail ⟨by simpa using going, moves_of_step ht hq⟩)
  | case5 best seen s p best' going next q k notLt old => exact ⟨_, rfl⟩
  | case6 best seen s p best' going next q k notLt seen' new ih =>
    obtain ⟨t, ht, rfl, hq⟩ := exists_of_choose k
    have move := moves_of_step ht hq
    rw [eq_of_step_of_not_lt hq notLt] at move
    exact ih hp (reach.tail ⟨by simpa using going, move⟩)

/-- What holds at all times of a walk that starts in the state `i`. The configurations it has come
to are `E`, and the current one is the only one that it has not dealt with. -/
structure Walking (g : Graph ν) (probe : Probe ν) (earliest : Bool) (window : List Char) (i : Nat)
    (E : Config → Prop) (best : Option Nat) (seen : Marks g.states.size) (s : Nat) (p : Place) :
    Prop where
  inWindow : Place.At window p
  reach : Relation.ReflTransGen (g.Advances probe earliest) (i, window) (s, p.rest)
  start : E (i, window)
  current : E (s, p.rest)
  going : ∀ c, E c → c ≠ (s, p.rest) → ¬ (earliest = true ∧ g.isAccepting c.1 = true)
  settled : ∀ c, E c → c ≠ (s, p.rest) → Settles probe (placeOf window c) (g.outgoing c.1)
  closed : ∀ c, E c → c ≠ (s, p.rest) → ∀ d, g.Moves probe c d → E d
  counted : ∀ c, E c → c ≠ (s, p.rest) → g.isAccepting c.1 = true →
    ∃ b, best = some b ∧ consumed window c.2 ≤ b
  sound : ∀ b, best = some b → g.Accepts probe window b ∧ b ≤ p.pos
  early : earliest = true → best = none
  marked : ∀ x, seen.contains x = true → E (x, p.rest)

theorem Advances.runs {a b : Config}
    (h : Relation.ReflTransGen (g.Advances probe earliest) a b) : g.Runs probe a b := by
  induction h with
  | refl => exact .refl
  | tail _ advance ih => exact ih.tail advance.2

theorem accepts_of_advances (initial : g.initial = some i) {s : Nat} {p : Place}
    (hp : Place.At window p)
    (reach : Relation.ReflTransGen (g.Advances probe earliest) (i, window) (s, p.rest))
    (accepting : g.isAccepting s = true) : g.Accepts probe window p.pos :=
  accepts_iff.mpr ⟨i, s, p.rest, initial, Advances.runs reach, accepting, hp.2⟩

namespace Walking

variable {E : Config → Prop} {best : Option Nat} {seen seen' : Marks g.states.size} {s next : Nat}
  {p q : Place}

/-- A walk goes on by the transition it has chosen. -/
theorem advance (initial : g.initial = some i)
    (h : g.Walking probe earliest window i E best seen s p)
    (going : ¬ (earliest && g.isAccepting s) = true)
    (k : choose probe s p none (g.outgoing s) = .ok (some (next, q)))
    (marked : ∀ x, seen'.contains x = true → E (x, q.rest) ∨ x = next) :
    g.Walking probe earliest window i (fun c => E c ∨ c = (next, q.rest))
      (if g.isAccepting s then some p.pos else best) seen' next q := by
  obtain ⟨t, ht, target, hq⟩ := exists_of_choose k
  have hpq : p.pos ≤ q.pos := by
    rcases Condition.place_of_step hq with rfl | ⟨_, _, e⟩ <;> omega
  have goes : ¬ (earliest = true ∧ g.isAccepting s = true) := by simpa using going
  have move : g.Moves probe (s, p.rest) (next, q.rest) := target ▸ moves_of_step ht hq
  refine ⟨h.inWindow.step hq, h.reach.tail ⟨goes, move⟩, .inl h.start, .inr rfl,
    fun c hc ne => ?_, fun c hc ne => ?_, fun c hc ne d move => ?_, fun c hc ne accepting => ?_,
    fun b hb => ?_, fun early => ?_, fun x hx => ?_⟩
  · by_cases e : c = (s, p.rest)
    · exact e ▸ goes
    · exact h.going c (hc.resolve_right ne) e
  · by_cases e : c = (s, p.rest)
    · rw [e, h.inWindow.placeOf_eq]
      exact (choose_settles k).1
    · exact h.settled c (hc.resolve_right ne) e
  · by_cases e : c = (s, p.rest)
    · exact .inr ((e ▸ move).eq_of_choose k)
    · exact .inl (h.closed c (hc.resolve_right ne) e d move)
  · by_cases e : c = (s, p.rest)
    · subst e
      exact ⟨p.pos, if_pos accepting, Nat.le_of_eq h.inWindow.consumed⟩
    · obtain ⟨b, hb, le⟩ := h.counted c (hc.resolve_right ne) e accepting
      split
      · exact ⟨p.pos, rfl, Nat.le_trans le (h.sound b hb).2⟩
      · exact ⟨b, hb, le⟩
  · split at hb
    · next accepting =>
      cases hb
      exact ⟨accepts_of_advances initial h.inWindow h.reach accepting, hpq⟩
    · exact ⟨(h.sound b hb).1, Nat.le_trans (h.sound b hb).2 hpq⟩
  · rw [if_neg fun accepting => goes ⟨early, accepting⟩, h.early early]
  · exact (marked x hx).imp_right fun e => by rw [e]

/-- A walk that does not stop comes to everything that can be reached. -/
theorem entered_of_runs (h : g.Walking probe earliest window i E best seen s p)
    (next : ∀ d, g.Moves probe (s, p.rest) d → E d) {c : Config}
    (run : g.Runs probe (i, window) c) : E c := by
  induction run with
  | refl => exact h.start
  | @tail b c _ move ih =>
    by_cases e : b = (s, p.rest)
    · subst e
      exact next c move
    · exact h.closed b ih e c move

theorem entered_of_advances (h : g.Walking probe earliest window i E best seen s p)
    (next : ¬ (earliest = true ∧ g.isAccepting s = true) →
      ∀ d, g.Moves probe (s, p.rest) d → E d) {c : Config}
    (reach : Relation.ReflTransGen (g.Advances probe earliest) (i, window) c) : E c := by
  induction reach with
  | refl => exact h.start
  | @tail b c _ advance ih =>
    by_cases e : b = (s, p.rest)
    · subst e
      exact next advance.1 c advance.2
    · exact h.closed b ih e c advance.2

/-- What a walk does not come to before it stops lies behind the place where it stops. -/
theorem entered_or_behind (h : g.Walking probe earliest window i E best seen s p) {c : Config}
    (run : g.Runs probe (i, window) c) :
    (E c ∧ c ≠ (s, p.rest)) ∨ p.pos ≤ consumed window c.2 := by
  have split {c : Config} (hc : E c) :
      (E c ∧ c ≠ (s, p.rest)) ∨ p.pos ≤ consumed window c.2 := by
    by_cases e : c = (s, p.rest)
    · exact .inr (e ▸ Nat.le_of_eq h.inWindow.consumed.symm)
    · exact .inl ⟨hc, e⟩
  induction run with
  | refl => exact split h.start
  | @tail b c _ move ih =>
    rcases ih with ⟨hb, ne⟩ | le
    · exact split (h.closed b hb ne c move)
    · obtain ⟨t, _, _, leads⟩ := move
      exact .inr (Nat.le_trans le (consumed_mono leads.suffix))

/-- Everything that accepts has been counted when a walk ends. -/
theorem bound_of_accepts (h : g.Walking probe earliest window i E best seen s p)
    (initial : g.initial = some i) (next : ¬ (earliest = true ∧ g.isAccepting s = true) →
      ∀ d, g.Moves probe (s, p.rest) d → E d) {m : Nat} (hm : g.Accepts probe window m) :
    ∃ b, (if g.isAccepting s then some p.pos else best) = some b ∧
      if earliest then b ≤ m else m ≤ b := by
  obtain ⟨j, r, u, hj, run, accepting, len⟩ := accepts_iff.mp hm
  cases initial.symm.trans hj
  have place : m = consumed window u := by
    unfold consumed
    omega
  by_cases stops : earliest = true ∧ g.isAccepting s = true
  · refine ⟨p.pos, if_pos stops.2, ?_⟩
    rw [if_pos stops.1, place]
    rcases h.entered_or_behind run with ⟨hc, ne⟩ | le
    · exact absurd ⟨stops.1, accepting⟩ (h.going _ hc ne)
    · exact le
  · have hc := h.entered_of_runs (next stops) run
    by_cases e : (r, u) = (s, p.rest)
    · cases e
      have late : earliest = false := by simpa [accepting] using stops
      refine ⟨p.pos, if_pos accepting, ?_⟩
      simpa [late, place] using Nat.le_of_eq h.inWindow.consumed
    · have late : earliest = false := by simpa [accepting] using h.going _ hc e
      obtain ⟨b, hb, le⟩ := h.counted _ hc e accepting
      simp only [late, place]
      split
      · exact ⟨p.pos, rfl, Nat.le_trans le (h.sound b hb).2⟩
      · exact ⟨b, hb, le⟩

/-- A walk that has nowhere to go, or stops, has come everywhere it could. -/
theorem finish (initial : g.initial = some i)
    (h : g.Walking probe earliest window i E best seen s p)
    (done : ¬ (earliest = true ∧ g.isAccepting s = true) →
      Settles probe p (g.outgoing s) ∧ ∀ d, g.Moves probe (s, p.rest) d → E d) :
    g.Single probe earliest window i ∧ IsExtreme earliest (g.Accepts probe window)
      (if g.isAccepting s then some p.pos else best) := by
  constructor
  · intro c reach going
    have member := h.entered_of_advances (fun going => (done going).2) reach
    by_cases e : c = (s, p.rest)
    · subst e
      rw [h.inWindow.placeOf_eq]
      exact (done going).1
    · exact h.settled c member e
  · apply IsExtreme.of_bound
    · intro b hb
      split at hb
      · next accepting =>
        cases hb
        exact accepts_of_advances initial h.inWindow h.reach accepting
      · exact (h.sound b hb).1
    · intro m hm
      exact h.bound_of_accepts initial (fun going => (done going).2) hm

end Walking

theorem walkFrom_spec (hg : g.Intact) (initial : g.initial = some i) {E : Config → Prop}
    {best r : Option Nat} {seen : Marks g.states.size} {s : Nat} {p : Place}
    (h : g.Walking probe earliest window i E best seen s p)
    (ok : g.walkFrom probe earliest best seen s p = .ok r) :
    g.Single probe earliest window i ∧ IsExtreme earliest (g.Accepts probe window) r := by
  fun_induction walkFrom g probe earliest best seen s p generalizing E with
  | case1 best seen s p best' =>
    rename_i stops
    rw [← Except.ok.inj ok]
    exact h.finish initial fun going => absurd (by simpa using stops) going
  | case2 best seen s p going e he => cases ok
  | case3 best seen s p best' going =>
    rename_i he
    rw [← Except.ok.inj ok]
    refine h.finish initial fun _ => ⟨(choose_settles he).1, fun d move => ?_⟩
    obtain ⟨t, ht, _, hq⟩ := move.applies (choose_settles he).1
    rcases choose_cases he with ⟨_, none⟩ | ⟨_, _, _, _, _, e⟩
    · exact absurd ⟨_, hq⟩ (none t ht)
    · cases e
  | case4 best seen s p best' going next q k lt fresh =>
    rename_i ih
    refine ih (h.advance initial going k fun x hx => .inr ?_) ok
    cases new : fresh.mark? next with
    | none => simp [new, fresh, Marks.contains_empty] at hx
    | some m => simpa [new, Marks.contains_iff_of_mark? new, fresh, Marks.contains_empty] using hx
  | case5 best seen s p best' going next q k notLt =>
    rename_i old
    rw [← Except.ok.inj ok]
    obtain ⟨t, ht, rfl, hq⟩ := exists_of_choose k
    refine h.finish initial fun _ => ⟨(choose_settles k).1, fun d move => ?_⟩
    rw [move.eq_of_choose k, eq_of_step_of_not_lt hq notLt]
    exact h.marked _ (Marks.mark?_eq_none_iff.mp old (hg.isLive_target ht).lt)
  | case6 best seen s p best' going next q k notLt seen' new =>
    rename_i ih
    obtain ⟨t, ht, rfl, hq⟩ := exists_of_choose k
    cases eq_of_step_of_not_lt hq notLt
    refine ih (h.advance initial going k fun x hx => ?_) ok
    exact ((Marks.contains_iff_of_mark? new).mp hx).symm.imp_left (h.marked x)

/-- The start of a walk. -/
theorem walking_start :
    g.Walking probe earliest window i (· = (i, window)) none
      (((Marks.empty g.states.size).mark? i).getD (Marks.empty g.states.size)) i ⟨0, window⟩ := by
  refine ⟨⟨List.suffix_rfl, Nat.zero_add _⟩, .refl, rfl, rfl, fun c hc ne => absurd hc ne,
    fun c hc ne => absurd hc ne, fun c hc ne => absurd hc ne, fun c hc ne => absurd hc ne,
    by simp, fun _ => rfl, fun x hx => ?_⟩
  cases new : (Marks.empty g.states.size).mark? i with
  | none => simp [new, Marks.contains_empty] at hx
  | some m =>
    simp only [new, Option.getD_some, Marks.contains_iff_of_mark? new, Marks.contains_empty,
      Bool.false_eq_true, or_false] at hx
    rw [hx]

/-- A walk that ends has seen at most one transition apply everywhere, and ends with the end it is
after. -/
theorem walk_spec (hg : g.Intact) (initial : g.initial = some i) {r : Option Nat}
    (ok : g.walk probe earliest window = .ok r) :
    g.Single probe earliest window i ∧ IsExtreme earliest (g.Accepts probe window) r := by
  simp only [walk, initial] at ok
  exact walkFrom_spec hg initial walking_start ok

/-- A walk ends if at most one transition applies wherever it comes to. -/
theorem walk_ok (initial : g.initial = some i) (single : g.Single probe earliest window i) :
    ∃ r, g.walk probe earliest window = .ok r := by
  simp only [walk, initial]
  exact walkFrom_ok single ⟨List.suffix_rfl, Nat.zero_add _⟩ .refl

section
variable {best : Option Nat} {seen : Marks g.states.size} {s next : Nat} {p q : Place}

/-- The end of the longest match so far, in a state at a place. -/
def bestAt (g : Graph ν) (best : Option Nat) (s pos : Nat) : Option Nat :=
  if g.isAccepting s then some pos else best

theorem walkFrom_of_stop (stop : (earliest && g.isAccepting s) = true) :
    g.walkFrom probe earliest best seen s p = .ok (g.bestAt best s p.pos) := by
  rw [walkFrom, if_pos stop]
  rfl

section
variable (going : ¬ (earliest && g.isAccepting s) = true)
include going

theorem walkFrom_of_error {e : SearchError}
    (failed : choose probe s p none (g.outgoing s) = .error e) :
    g.walkFrom probe earliest best seen s p = .error e := by
  rw [walkFrom, if_neg going]
  split <;> rename_i k <;> cases failed.symm.trans k
  rfl

theorem walkFrom_of_end (ends : choose probe s p none (g.outgoing s) = .ok none) :
    g.walkFrom probe earliest best seen s p = .ok (g.bestAt best s p.pos) := by
  rw [walkFrom, if_neg going]
  split <;> rename_i k <;> cases ends.symm.trans k
  rfl

variable (chosen : choose probe s p none (g.outgoing s) = .ok (some (next, q)))
include chosen

theorem walkFrom_of_advance (lt : p.pos < q.pos) :
    g.walkFrom probe earliest best seen s p =
      g.walkFrom probe earliest (g.bestAt best s p.pos)
        (((Marks.empty g.states.size).mark? next).getD (Marks.empty _)) next q := by
  rw [walkFrom, if_neg going]
  split <;> rename_i k <;> cases chosen.symm.trans k
  rw [dif_pos lt]
  rfl

theorem walkFrom_of_old (notLt : ¬ p.pos < q.pos) (old : seen.mark? next = none) :
    g.walkFrom probe earliest best seen s p = .ok (g.bestAt best s p.pos) := by
  rw [walkFrom, if_neg going]
  split <;> rename_i k <;> cases chosen.symm.trans k
  rw [dif_neg notLt]
  split <;> rename_i new <;> cases old.symm.trans new
  rfl

theorem walkFrom_of_new {seen' : Marks g.states.size} (notLt : ¬ p.pos < q.pos)
    (new : seen.mark? next = some seen') :
    g.walkFrom probe earliest best seen s p =
      g.walkFrom probe earliest (g.bestAt best s p.pos) seen' next p := by
  rw [walkFrom, if_neg going]
  split <;> rename_i k <;> cases chosen.symm.trans k
  rw [dif_neg notLt]
  split <;> rename_i new' <;> cases new.symm.trans new'
  rfl

end
end

end PatternAutomata.Graph
