import PatternAutomata.Proofs.SigmaRemoval
import PatternAutomata.Proofs.SingleWay

/-!
# Copies of an automaton

A copy has other numbers for the states and lacks some transitions that repeat earlier ones. Sigma
closures correspond in a copy (`Copies.closureFrom`), so that it mirrors the automaton for a search
by backtracking (`Copies.mirrors`), and a search along a single way that succeeds in the automaton
succeeds in the copy, with the same outcome (`Copies.walk_ok`).
-/
namespace PatternAutomata.Graph

variable {ν μ : Type}

theorem Thins.append {α : Type} {xs ys xs' ys' : List α} (h : Thins xs ys) (k : Thins xs' ys') :
    Thins (xs ++ xs') (ys ++ ys') := by
  induction k with
  | nil => simpa using h
  | keep _ ih => simpa using ih.keep
  | @drop xs' ys' x _ again ih =>
    rw [← List.append_assoc]
    exact ih.drop (List.mem_append_right _ again)

section
variable {g : Graph ν} {x : Nat} {rest : List Nat}

/-- A state that is pending already, or visited, need not be pending again. -/
theorem closureFrom_again {seen : Marks g.states.size} {pending : List Nat}
    (again : x ∈ pending ∨ seen.mark? x = none) :
    g.closureFrom seen (pending ++ x :: rest) = g.closureFrom seen (pending ++ rest) := by
  generalize whole : pending ++ rest = all
  fun_induction closureFrom g seen all generalizing pending with
  | case1 seen =>
    obtain ⟨rfl, rfl⟩ := List.append_eq_nil_iff.mp whole
    exact (closureFrom_old g (again.resolve_left List.not_mem_nil)).trans (closureFrom_nil g)
  | case2 seen s all old ih =>
    cases pending with
    | nil =>
      have skipped : g.closureFrom seen (x :: rest) = g.closureFrom seen rest :=
        closureFrom_old g (again.resolve_left List.not_mem_nil)
      exact skipped.trans (by rw [show rest = s :: all from whole, closureFrom_old g old])
    | cons r pending =>
      obtain ⟨rfl, tail⟩ : r = s ∧ pending ++ rest = all := List.cons.inj whole
      rw [List.cons_append, closureFrom_old g old]
      refine ih ?_ tail
      rcases again with mem | none
      · rcases List.mem_cons.mp mem with rfl | mem
        · exact .inr old
        · exact .inl mem
      · exact .inr none
  | case3 seen s all seen' new ih =>
    cases pending with
    | nil =>
      have skipped : g.closureFrom seen (x :: rest) = g.closureFrom seen rest :=
        closureFrom_old g (again.resolve_left List.not_mem_nil)
      exact skipped.trans (by rw [show rest = s :: all from whole, closureFrom_new g new])
    | cons r pending =>
      obtain ⟨rfl, tail⟩ : r = s ∧ pending ++ rest = all := List.cons.inj whole
      rw [List.cons_append, closureFrom_new g new, ← List.append_assoc]
      refine congrArg (r :: ·) (ih ?_ (by rw [List.append_assoc, tail]))
      have marked (k : Nat) (h : k = r ∨ seen.contains k = true) : seen'.mark? k = none :=
        Marks.mark?_eq_none_iff.mpr fun _ => (Marks.contains_iff_of_mark? new).mpr h
      rcases again with mem | none
      · rcases List.mem_cons.mp mem with rfl | mem
        · exact .inr (marked x (.inl rfl))
        · exact .inl (List.mem_append_right _ mem)
      · by_cases lt : x < g.states.size
        · exact .inr (marked x (.inr (Marks.mark?_eq_none_iff.mp none lt)))
        · exact .inr (Marks.mark?_eq_none_iff.mpr fun h => absurd h lt)

theorem closureFrom_thins {seen : Marks g.states.size} {xs ys : List Nat} (h : Thins xs ys)
    (rest : List Nat) : g.closureFrom seen (xs ++ rest) = g.closureFrom seen (ys ++ rest) := by
  induction h generalizing rest with
  | nil => rfl
  | @keep xs ys x _ ih => simpa using ih (x :: rest)
  | @drop xs ys x _ again ih =>
    rw [List.append_assoc]
    exact (closureFrom_again (.inl again)).trans (ih rest)

end

/-- A transition of a copy, for a transition of the automaton. -/
def CopyOf (stands : Nat → Nat → Prop) (t u : Transition ν) : Prop :=
  stands t.target u.target ∧ u.condition = t.condition

/-- The states of the second automaton stand for states of the first one, one for one, with the same
acceptance and with copies of their transitions, up to repeats in the first automaton. -/
structure Copies (g h : Graph ν) (stands : Nat → Nat → Prop) : Prop where
  bound : ∀ s r, stands s r → s < g.states.size ∧ r < h.states.size
  same : ∀ s r, stands s r → ∀ s' r', stands s' r' → (s = s' ↔ r = r')
  accepting : ∀ s r, stands s r → h.isAccepting r = g.isAccepting s
  outgoing : ∀ s r, stands s r → ∃ us,
    List.Forall₂ (CopyOf stands) (g.outgoing s) us ∧ Thins us (h.outgoing r)
  initial : Option.Rel stands g.initial h.initial

namespace Copies

variable {g h : Graph ν} {stands : Nat → Nat → Prop} {s r : Nat}

/-- New nested automata in both. -/
theorem replace (c : Copies g h stands) (f : ν → μ) :
    Copies (g.replace f) (h.replace f) stands where
  bound := by simpa [Graph.replace, Graph.mapNested] using c.bound
  same := c.same
  accepting := c.accepting
  outgoing s r related := by
    obtain ⟨us, copies, thin⟩ := c.outgoing s r related
    rw [outgoing_replace, outgoing_replace]
    refine ⟨us.map (Transition.map f), ?_, thin.map _⟩
    rw [List.forall₂_map_left_iff, List.forall₂_map_right_iff]
    refine copies.imp fun t u copy => ⟨copy.1, ?_⟩
    simp only [Transition.map, copy.2]
  initial := c.initial

/-- States that stand for each other are marked alike. -/
def Marked (g h : Graph ν) (stands : Nat → Nat → Prop) (seen : Marks g.states.size)
    (seen' : Marks h.states.size) : Prop :=
  ∀ s r, stands s r → seen.contains s = seen'.contains r

variable {seen : Marks g.states.size} {seen' : Marks h.states.size}

theorem marked_empty : Marked g h stands (Marks.empty _) (Marks.empty _) := by
  intro s r _
  rw [Marks.contains_empty, Marks.contains_empty]

theorem mark?_eq_none (c : Copies g h stands) (alike : Marked g h stands seen seen')
    (related : stands s r) (old : seen.mark? s = none) : seen'.mark? r = none := by
  rw [Marks.mark?_eq_none_iff] at old ⊢
  intro _
  rw [← alike s r related]
  exact old (c.bound s r related).1

theorem mark?_eq_some (c : Copies g h stands) (alike : Marked g h stands seen seen')
    (related : stands s r) {more : Marks g.states.size} (new : seen.mark? s = some more) :
    ∃ more', seen'.mark? r = some more' ∧ Marked g h stands more more' := by
  obtain ⟨-, free⟩ := Marks.lt_of_mark? new
  rw [alike s r related] at free
  obtain ⟨more', new'⟩ := Marks.exists_mark? (c.bound s r related).2 free
  refine ⟨more', new', fun s' r' related' => ?_⟩
  rw [Bool.eq_iff_iff, Marks.contains_iff_of_mark? new, Marks.contains_iff_of_mark? new',
    alike s' r' related', c.same s' r' related' s r related]

theorem sigmaTargets (c : Copies g h stands) (related : stands s r) :
    ∃ us, List.Forall₂ stands (g.sigmaTargets s) us ∧ Thins us (h.sigmaTargets r) := by
  obtain ⟨us, copies, thin⟩ := c.outgoing s r related
  refine ⟨_, ?_, thin.filterMap _⟩
  refine List.rel_filterMap (fun t u copy => ?_) copies
  rw [copy.2]
  cases t.condition.isSigma with
  | false => exact .none
  | true => exact .some copy.1

/-- Sigma closures correspond. -/
theorem closureFrom (c : Copies g h stands) {pending : List Nat} :
    ∀ {seen' : Marks h.states.size} {pending' : List Nat}, Marked g h stands seen seen' →
      List.Forall₂ stands pending pending' →
        List.Forall₂ stands (g.closureFrom seen pending) (h.closureFrom seen' pending') := by
  fun_induction Graph.closureFrom g seen pending with
  | case1 seen =>
    rintro seen' _ _ ⟨⟩
    rw [closureFrom_nil]
    exact .nil
  | case2 seen s pending old ih =>
    rintro seen' _ alike (_ | ⟨related, rest⟩)
    rw [closureFrom_old h (c.mark?_eq_none alike related old)]
    exact ih alike rest
  | case3 seen s pending more new ih =>
    rintro seen' _ alike (_ | ⟨related, rest⟩)
    obtain ⟨more', new', alike'⟩ := c.mark?_eq_some alike related new
    obtain ⟨us, targets, thin⟩ := c.sigmaTargets related
    rw [closureFrom_new h new', ← closureFrom_thins thin]
    exact .cons related (ih alike' (List.rel_append targets rest))

/-- What a closure comes to corresponds: its acceptance and what leaves it. -/
theorem closed (c : Copies g h stands) (related : stands s r) :
    (h.closed r).accepting = (g.closed s).accepting ∧
      ∃ us, List.Forall₂ (CopyOf stands) (g.closed s).leaving us ∧
        Thins us (h.closed r).leaving := by
  have members : List.Forall₂ stands (g.closure s) (h.closure r) :=
    c.closureFrom marked_empty (.cons related .nil)
  unfold Graph.closed
  generalize g.closure s = ms, h.closure r = ns at members
  induction members with
  | nil => exact ⟨rfl, [], .nil, .nil⟩
  | @cons m n ms ns first _ ih =>
    obtain ⟨accepting, us, copies, thin⟩ := ih
    obtain ⟨vs, copies', thin'⟩ := c.outgoing m n first
    refine ⟨?_, _, ?_, (thin'.filter fun t => !t.condition.isSigma).append thin⟩
    · simp only [List.any_cons, c.accepting m n first]
      exact congrArg _ accepting
    · refine List.rel_append (List.rel_filter (fun t u copy => ?_) copies') copies
      simp only [copy.2]

/-- A copy is searched alike by backtracking, however its checks are run. -/
theorem mirrors (c : Copies g h stands) (probe : Probe ν) : Mirrors g probe h probe stands where
  bound := c.bound
  same := c.same
  accepting s r related := (c.closed related).1
  leaving s r related := by
    obtain ⟨us, copies, thin⟩ := (c.closed related).2
    refine ⟨us, copies.imp fun t u copy => ⟨copy.1, fun p => ?_⟩, thin⟩
    rw [copy.2]
  initial := c.initial

end Copies

section
variable {probe : Probe ν} {p : Place}

theorem choose_append {state : Nat} {taken : Option (Nat × Place)} (ts us : List (Transition ν)) :
    choose probe state p taken (ts ++ us) =
      (choose probe state p taken ts).bind fun chosen => choose probe state p chosen us := by
  induction ts generalizing taken with
  | nil => rfl
  | cons t ts ih =>
    simp only [List.cons_append, choose]
    split
    · rfl
    · exact ih
    · split
      · rfl
      · exact ih

/-- If a choice succeeds, then no transition that occurs twice applies. -/
theorem Thins.choose_eq {state : Nat} {ts us : List (Transition ν)} (h : Thins ts us)
    {chosen : Option (Nat × Place)} (ok : choose probe state p none ts = .ok chosen) :
    choose probe state p none us = .ok chosen := by
  induction h generalizing chosen with
  | nil => exact ok
  | @keep ts us t _ ih =>
    rw [choose_append] at ok ⊢
    cases first : choose probe state p none ts with
    | error e =>
      rw [first] at ok
      cases ok
    | ok c => rwa [ih first, ← first]
  | @drop ts us t _ again ih =>
    have settles := (choose_settles ok).1
    have idle : ¬ Applies probe p t := fun applies =>
      (List.pairwise_append.mp settles.2).2.2 t again t (by simp) ⟨applies, applies⟩
    obtain ⟨q, hq⟩ := settles.1 t (by simp)
    have none : q = none := Option.eq_none_iff_forall_not_mem.mpr fun r hr => idle ⟨r, hr ▸ hq⟩
    rw [choose_append] at ok
    cases first : choose probe state p Option.none ts with
    | error e =>
      rw [first] at ok
      cases ok
    | ok c =>
      rw [first, Except.bind, choose, hq, none] at ok
      exact (ih first).trans ok

/-- Copies of transitions are chosen alike. -/
theorem choose_copies {stands : Nat → Nat → Prop} {s r : Nat} {ts us : List (Transition ν)}
    (copies : List.Forall₂ (CopyOf stands) ts us) {taken taken' chosen : Option (Nat × Place)}
    (related : Option.Rel (fun a b => stands a.1 b.1 ∧ a.2 = b.2) taken taken')
    (ok : choose probe s p taken ts = .ok chosen) :
    ∃ chosen', choose probe r p taken' us = .ok chosen' ∧
      Option.Rel (fun a b => stands a.1 b.1 ∧ a.2 = b.2) chosen chosen' := by
  induction copies generalizing taken taken' with
  | nil =>
    cases ok
    exact ⟨taken', rfl, related⟩
  | @cons t u ts us copy _ ih =>
    rw [choose] at ok ⊢
    rw [copy.2]
    split at ok
    · cases ok
    · exact ih related ok
    · next q _ =>
      split at ok
      · cases ok
      · cases related
        have first : Option.Rel (fun a b => stands a.1 b.1 ∧ a.2 = b.2) (some (t.target, q))
            (some (u.target, q)) := .some ⟨copy.1, rfl⟩
        exact ih first ok

namespace Copies

variable {g h : Graph ν} {stands : Nat → Nat → Prop} {s r : Nat} {earliest : Bool}
  {seen : Marks g.states.size} {seen' : Marks h.states.size}

theorem choose_ok (c : Copies g h stands) (related : stands s r) {chosen : Option (Nat × Place)}
    (ok : choose probe s p none (g.outgoing s) = .ok chosen) :
    ∃ chosen', choose probe r p none (h.outgoing r) = .ok chosen' ∧
      Option.Rel (fun a b => stands a.1 b.1 ∧ a.2 = b.2) chosen chosen' := by
  obtain ⟨us, copies, thin⟩ := c.outgoing s r related
  obtain ⟨chosen', ok', related'⟩ := choose_copies (r := r) copies .none ok
  exact ⟨chosen', thin.choose_eq ok', related'⟩

theorem marked_first (c : Copies g h stands) (related : stands s r) :
    Marked g h stands (((Marks.empty g.states.size).mark? s).getD (Marks.empty _))
      (((Marks.empty h.states.size).mark? r).getD (Marks.empty _)) := by
  obtain ⟨first, new⟩ := Marks.exists_mark? (c.bound s r related).1 (Marks.contains_empty s)
  obtain ⟨first', new', alike⟩ := c.mark?_eq_some marked_empty related new
  rw [new, new']
  exact alike

/-- Where a walk through the automaton succeeds, the walk through the copy keeps to it. -/
theorem walkFrom_ok (c : Copies g h stands) {best result : Option Nat}
    (ok : g.walkFrom probe earliest best seen s p = .ok result) :
    ∀ {seen' : Marks h.states.size} {r : Nat}, Marked g h stands seen seen' → stands s r →
      h.walkFrom probe earliest best seen' r p = .ok result := by
  have copied {best : Option Nat} {s r : Nat} {p : Place} (related : stands s r) :
      h.bestAt best r p.pos = if g.isAccepting s then some p.pos else best := by
    rw [bestAt, c.accepting s r related]
  have goes {s r : Nat} (related : stands s r) (going : ¬ (earliest && g.isAccepting s) = true) :
      ¬ (earliest && h.isAccepting r) = true := by
    rwa [c.accepting s r related]
  fun_induction walkFrom g probe earliest best seen s p with
  | case1 best seen s p best' stop =>
    intro seen' r alike related
    rw [walkFrom_of_stop (by rwa [c.accepting s r related]), copied related]
    exact ok
  | case2 => cases ok
  | case3 best seen s p best' going ends =>
    intro seen' r alike related
    obtain ⟨_, ends', ⟨⟩⟩ := c.choose_ok related ends
    rw [walkFrom_of_end (goes related going) ends', copied related]
    exact ok
  | case4 best seen s p best' going next q chosen lt fresh =>
    rename_i ih
    intro seen' r alike related
    obtain ⟨_, chosen', @⟨_, ⟨next', q'⟩, target, rfl⟩⟩ := c.choose_ok related chosen
    rw [walkFrom_of_advance (goes related going) chosen' lt, copied related]
    exact ih ok (c.marked_first target) target
  | case5 best seen s p best' going next q chosen notLt old =>
    intro seen' r alike related
    obtain ⟨_, chosen', @⟨_, ⟨next', q'⟩, target, rfl⟩⟩ := c.choose_ok related chosen
    rw [walkFrom_of_old (goes related going) chosen' notLt (c.mark?_eq_none alike target old),
      copied related]
    exact ok
  | case6 best seen s p best' going next q chosen notLt more new ih =>
    intro seen' r alike related
    obtain ⟨_, chosen', @⟨_, ⟨next', q'⟩, target, rfl⟩⟩ := c.choose_ok related chosen
    obtain ⟨more', new', alike'⟩ := c.mark?_eq_some alike target new
    rw [walkFrom_of_new (goes related going) chosen' notLt new', copied related]
    exact ih ok alike' target

/-- A search along a single way that succeeds has the same outcome in a copy. -/
theorem walk_ok (c : Copies g h stands) {window : List Char} {result : Option Nat}
    (ok : g.walk probe earliest window = .ok result) :
    h.walk probe earliest window = .ok result := by
  have start := c.initial
  unfold walk at ok ⊢
  generalize g.initial = i, h.initial = j at start ok
  cases start with
  | none => cases ok
  | some related => exact c.walkFrom_ok ok (c.marked_first related) related

end Copies

end

end PatternAutomata.Graph
