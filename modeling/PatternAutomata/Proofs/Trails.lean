import PatternAutomata.Proofs.Mapped
import Mathlib.Data.List.Chain

/-!
# The trail of a walk

The states that a search along a single way enters are recorded in the order in which it enters
them. From one to the next it glides, if nothing is consumed, or advances in the window
(`isChain_trail`). What it enters at one position is therefore a path of glides
(`exists_path_of_trail`).
-/
namespace PatternAutomata.Graph

variable {ν : Type} {g : Graph ν} {probe : Probe ν} {earliest : Bool} {best : Option Nat}
  {seen : Marks g.states.size} {s pos : Nat} {p : Place} {window : List Char}

/-- The walk from a state with its trail: the states it enters, each with the position. -/
def trailFrom (g : Graph ν) (probe : Probe ν) (earliest : Bool) (best : Option Nat)
    (seen : Marks g.states.size) (s : Nat) (p : Place) :
    Except SearchError (Option Nat) × List (Nat × Nat) :=
  let best := if g.isAccepting s then some p.pos else best
  if earliest && g.isAccepting s then (.ok best, [(s, p.pos)])
  else
    match _k : choose probe s p none (g.outgoing s) with
    | .error e => (.error e, [(s, p.pos)])
    | .ok none => (.ok best, [(s, p.pos)])
    | .ok (some (next, q)) =>
      if _h : p.pos < q.pos then
        let fresh := Marks.empty g.states.size
        let later := g.trailFrom probe earliest best ((fresh.mark? next).getD fresh) next q
        (later.1, (s, p.pos) :: later.2)
      else
        match _h : seen.mark? next with
        | none => (.ok best, [(s, p.pos)])
        | some seen' =>
          let later := g.trailFrom probe earliest best seen' next p
          (later.1, (s, p.pos) :: later.2)
termination_by (p.rest.length, seen.free)
decreasing_by
  · refine Prod.Lex.left _ _ ?_
    rcases place_of_choose _k with e | rfl | ⟨x, hx, _⟩
    · cases e
    · exact absurd _h (Nat.lt_irrefl _)
    · simp [hx]
  · exact Prod.Lex.right _ (Marks.free_lt_of_mark? _h)

/-- The search along a single way with its trail. -/
def trail (g : Graph ν) (probe : Probe ν) (earliest : Bool) (window : List Char) :
    Except SearchError (Option Nat) × List (Nat × Nat) :=
  match g.initial with
  | none => (.error .missingInitialState, [])
  | some s =>
    let fresh := Marks.empty g.states.size
    g.trailFrom probe earliest none ((fresh.mark? s).getD fresh) s ⟨0, window⟩

/-- How many steps of a trail stay at a position. -/
def staysAt (pos : Nat) (trail : List (Nat × Nat)) : Nat :=
  (trail.zip trail.tail).countP fun step => step.1.2 == pos && step.2.2 == pos

/-- A transition that consumes nothing leads from one state to another. -/
def Glides (g : Graph ν) (s r : Nat) : Prop :=
  ∃ t ∈ g.outgoing s, t.condition.isConsuming = false ∧ t.target = r

/-- A walk glides from one entry of its trail to the next, or it advances in the window. -/
def Follows (g : Graph ν) (a b : Nat × Nat) : Prop := a.2 = b.2 ∧ g.Glides a.1 b.1 ∨ a.2 < b.2

theorem trailFrom_fst : (g.trailFrom probe earliest best seen s p).1 =
    g.walkFrom probe earliest best seen s p := by
  -- The two recursions branch alike, the recording apart.
  fun_induction trailFrom g probe earliest best seen s p
  all_goals unfold walkFrom
  all_goals grind

/-- The recorded search is the search. -/
theorem trail_fst : (g.trail probe earliest window).1 = g.walk probe earliest window := by
  unfold trail walk
  cases g.initial with
  | none => rfl
  | some s => exact trailFrom_fst

theorem head?_trailFrom :
    (g.trailFrom probe earliest best seen s p).2.head? = some (s, p.pos) := by
  fun_induction trailFrom g probe earliest best seen s p
  all_goals rfl

/-- A step that does not advance in the window is by a transition that consumes nothing. -/
theorem glides_of_step {t : Transition ν} (ht : t ∈ g.outgoing s) {q : Place}
    (hq : t.condition.step probe p = .ok (some q)) (stays : ¬ p.pos < q.pos) :
    g.Glides s t.target := by
  refine ⟨t, ht, ?_, rfl⟩
  have leads := (Condition.step_eq_some_iff.mp hq).2.1
  rw [eq_of_step_of_not_lt hq stays] at leads
  cases hset : t.condition.charSet? with
  | none => simp [Condition.isConsuming_eq, hset]
  | some set =>
    obtain ⟨x, -, rest⟩ := (Condition.leads_iff_of_charSet hset).mp leads
    exact absurd (congrArg List.length rest) (by simp)

theorem isChain_trailFrom : (g.trailFrom probe earliest best seen s p).2.IsChain g.Follows := by
  fun_induction trailFrom g probe earliest best seen s p with
  | case1 => exact .singleton _
  | case2 => exact .singleton _
  | case3 => exact .singleton _
  | case4 best seen s p best' going next q k lt fresh later ih =>
    refine ih.cons fun b hb => ?_
    rw [head?_trailFrom] at hb
    cases hb
    exact .inr lt
  | case5 => exact .singleton _
  | case6 best seen s p best' going next q k notLt seen' new later ih =>
    obtain ⟨t, ht, rfl, hq⟩ := exists_of_choose k
    refine ih.cons fun b hb => ?_
    rw [head?_trailFrom] at hb
    cases hb
    exact .inl ⟨rfl, glides_of_step ht hq notLt⟩

/-- Each entry of a trail follows from the one before it. -/
theorem isChain_trail : (g.trail probe earliest window).2.IsChain g.Follows := by
  unfold trail
  cases g.initial with
  | none => exact .nil
  | some s => exact isChain_trailFrom

section
variable {trail : List (Nat × Nat)} {a : Nat × Nat}

/-- What is entered at one position is a path of glides. -/
theorem exists_path_of_isChain (chain : (a :: trail).IsChain g.Follows) (pos : Nat) :
    ∃ r path, (r :: path).IsChain g.Glides ∧ path.length = staysAt pos (a :: trail) ∧
      (pos = a.2 → r = a.1) ∧ (pos < a.2 → path = []) := by
  induction trail generalizing a with
  | nil => exact ⟨a.1, [], .singleton _, rfl, fun _ => rfl, fun _ => rfl⟩
  | cons b trail ih =>
    obtain ⟨follows, chain'⟩ := List.isChain_cons_cons.mp chain
    obtain ⟨r, path, glides, stays, here, ahead⟩ := ih chain'
    have step : staysAt pos (a :: b :: trail) =
        staysAt pos (b :: trail) + if a.2 = pos ∧ b.2 = pos then 1 else 0 := by
      simp [staysAt, List.countP_cons]
    by_cases current : pos = a.2
    · subst current
      rcases follows with ⟨same, glide⟩ | lt
      · refine ⟨a.1, r :: path, ?_, ?_, fun _ => rfl, fun lt => absurd lt (Nat.lt_irrefl _)⟩
        · exact List.isChain_cons_cons.mpr ⟨here same ▸ glide, glides⟩
        · rw [step, if_pos ⟨rfl, same.symm⟩, List.length_cons, stays]
      · refine ⟨a.1, [], .singleton _, ?_, fun _ => rfl, fun _ => rfl⟩
        rw [step, if_neg fun both => Nat.ne_of_gt lt both.2, ← stays, ahead lt]
        rfl
    · refine ⟨r, path, glides, ?_, fun e => absurd e current, fun lt => ahead ?_⟩
      · rw [step, if_neg fun both => current both.1.symm, Nat.add_zero, stays]
      · rcases follows with ⟨same, -⟩ | later
        · exact same ▸ lt
        · exact Nat.lt_trans lt later

end

/-- The steps that stay at one position of the window are a path of glides. -/
theorem exists_path_of_trail (pos : Nat) : ∃ r path, (r :: path).IsChain g.Glides ∧
    path.length = staysAt pos (g.trail probe earliest window).2 := by
  have chain : (g.trail probe earliest window).2.IsChain g.Follows := isChain_trail
  cases entered : (g.trail probe earliest window).2 with
  | nil => exact ⟨0, [], .singleton _, rfl⟩
  | cons a rest =>
    rw [entered] at chain
    obtain ⟨r, path, glides, stays, -⟩ := exists_path_of_isChain chain pos
    exact ⟨r, path, glides, stays⟩

/-- Other nested automata leave the glides as they are. -/
theorem glides_replace {μ : Type} {f : ν → μ} : (g.replace f).Glides = g.Glides := by
  have consuming (c : Condition ν) : (c.map f).isConsuming = c.isConsuming := by cases c <;> rfl
  funext s r
  simp [Glides, outgoing_replace, Transition.map, consuming]

end PatternAutomata.Graph
