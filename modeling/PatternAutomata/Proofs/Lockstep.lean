import PatternAutomata.Proofs.OnePass
import PatternAutomata.Proofs.Sharing

/-!
# Passes and steps in lockstep

A pass builds an automaton through changes that may fail, a step of the construction adds to a
draft. The two are put together in the same way, so a relation between workshops and drafts that
survives one new state and one new edge (`Steady`) survives a pass for a whole expression, if it
survives lookaheads (`lockstep_pass`).
-/
namespace PatternAutomata

namespace Fragment

variable (body : Step Fragment)

/-- The fragment that is repeated without end. -/
def loopBody (exit tail : Nat) : Option Fragment → Step Fragment
  | some f => return f
  | none => do
    let f ← body
    newEdge tail f.entry .sigma
    newEdge tail exit .sigma
    return f

/-- What follows the required copies of a fragment. -/
def further (exit tail : Nat) (last : Option Fragment) : Option Nat → Step Unit
  | some n => do newEdge (← optionalCopies body exit n tail) exit .sigma
  | none => do
    let f ← loopBody body exit tail last
    newEdge f.exit f.entry .sigma
    newEdge f.exit exit .sigma

theorem repeated_eq (min : Nat) (max : Option Nat) : repeated body min max = do
    let entry ← newState
    let r ← copies body min entry none
    let exit ← newState
    further body exit r.1 r.2 (max.map (· - min))
    return ⟨entry, exit⟩ := by
  cases max with
  | some max => rfl
  | none =>
    refine bind_congr fun entry => bind_congr fun r => bind_congr fun exit => ?_
    cases r with
    | mk tail last => cases last <;> rfl

end Fragment

namespace OnePass

/-- The entry and the exit without the owner of their names. -/
def Part.fragment (f : Part) : Fragment := ⟨f.entry.index, f.exit.index⟩

variable {α β γ δ : Type} {R : Workshop → Draft → Prop} {p : Pass α} {s : Fragment.Step β}
  {φ : α → β} {ψ : γ → δ}

/-- If a pass succeeds, its result names what a step tells, and what holds between the workshop and
the draft beforehand holds afterwards. -/
def Lockstep (R : Workshop → Draft → Prop) (p : Pass α) (s : Fragment.Step β) (φ : α → β) : Prop :=
  ∀ w d, R w d → ∀ a w', p.run w = .ok (a, w') → (s.run d).1 = φ a ∧ R w' (s.run d).2

namespace Lockstep

theorem pure (a : α) : Lockstep R (Pure.pure a) (Pure.pure (φ a)) φ := by
  intro w d related a' w' ok
  cases ok
  exact ⟨rfl, related⟩

theorem throw (err : Error) : Lockstep R (throw err) s φ := by
  intro w d _ a w' ok
  cases ok

theorem bind {k : α → Pass γ} {l : β → Fragment.Step δ} (h : Lockstep R p s φ)
    (next : ∀ a, Lockstep R (k a) (l (φ a)) ψ) : Lockstep R (p >>= k) (s >>= l) ψ := by
  intro w d related c w'' ok
  rw [StateT.run_bind] at ok
  obtain ⟨⟨a, w'⟩, first, rest⟩ := bind_eq_ok.mp ok
  obtain ⟨same, related'⟩ := h w d related a w' first
  have second := next a w' (s.run d).2 related' c w'' rest
  rw [← same] at second
  exact second

theorem part (entry exit : StateId) :
    Lockstep R (Pure.pure (⟨entry, exit⟩ : Part)) (Pure.pure ⟨entry.index, exit.index⟩)
      Part.fragment :=
  .pure (φ := Part.fragment) ⟨entry, exit⟩

end Lockstep

theorem join_ok {w w' : Workshop} {source target : StateId} {c : Condition Nested} {u : Unit}
    (ok : (join source target c).run w = .ok (u, w')) :
    w.automaton.IsLive source.index ∧ w.automaton.IsLive target.index ∧
      w' = { w with automaton := w.automaton.connect ⟨source.index, target.index, c⟩ } := by
  have run : (join source target c).run w = w.automaton.addTransition source target c >>= fun r =>
      Pure.pure ((), { w with automaton := r.1 }) := rfl
  obtain ⟨⟨g, id⟩, added, ⟨⟩⟩ := bind_eq_ok.mp (run.symm.trans ok)
  obtain ⟨hs, ht, rfl, -⟩ := Graph.addTransition_ok added
  exact ⟨hs, ht, rfl⟩

/-- An edge is added by both. -/
def EdgeStep (R : Workshop → Draft → Prop) (c : Condition Expr) (c' : Condition Nested) : Prop :=
  ∀ source target, Lockstep R (join source target c')
    (Fragment.newEdge source.index target.index c) fun _ => ()

/-- The relation survives a new state, and a new edge that is no check. -/
structure Steady (R : Workshop → Draft → Prop) : Prop where
  newState : Lockstep R newState Fragment.newState StateId.index
  char : ∀ c, EdgeStep R (.char c) (.char c)
  set : ∀ s, EdgeStep R (.set s) (.set s)
  sigma : EdgeStep R .sigma .sigma

/-- Passes do one by one what steps do. -/
abbrev LockstepAll (R : Workshop → Draft → Prop) :
    List (Pass Part) → List (Fragment.Step Fragment) → Prop :=
  List.Forall₂ fun p s => Lockstep R p s Part.fragment

namespace Steady

theorem single {c : Condition Expr} {c' : Condition Nested} (h : Steady R)
    (edge : EdgeStep R c c') : Lockstep R (single c') (Fragment.single c) Part.fragment :=
  h.newState.bind fun entry => h.newState.bind fun exit =>
    (edge entry exit).bind fun _ => .part entry exit

theorem chainFrom (h : Steady R) (text : List Char) (last : StateId) :
    Lockstep R (chainFrom last text) (Fragment.chainFrom last.index text) StateId.index := by
  induction text generalizing last with
  | nil => exact .pure last
  | cons c rest ih =>
    refine h.newState.bind fun next => ?_
    exact (h.char c last next).bind fun _ => ih next

theorem chain (h : Steady R) (text : List Char) :
    Lockstep R (chain text) (Fragment.chain text) Part.fragment :=
  h.newState.bind fun entry => (h.chainFrom text entry).bind fun exit => .part entry exit

variable {passes : List (Pass Part)} {steps : List (Fragment.Step Fragment)}

theorem appendFrom (h : Steady R) (all : LockstepAll R passes steps) (exit : StateId) :
    Lockstep R (appendFrom exit passes) (Fragment.appendFrom exit.index steps) StateId.index := by
  induction all generalizing exit with
  | nil => exact .pure exit
  | cons first _ ih =>
    refine first.bind fun f => ?_
    exact (h.sigma exit f.entry).bind fun _ => ih f.exit

theorem inSequence (h : Steady R) (all : LockstepAll R passes steps) :
    Lockstep R (inSequence passes) (Fragment.inSequence steps) Part.fragment := by
  cases all with
  | nil => exact .throw _
  | cons first rest =>
    exact first.bind fun f => (h.appendFrom rest f.exit).bind fun exit => .part f.entry exit

theorem branches (h : Steady R) (all : LockstepAll R passes steps) (entry exit : StateId) :
    Lockstep R (branches entry exit passes) (Fragment.branches entry.index exit.index steps)
      fun _ => () := by
  induction all with
  | nil => exact .pure (φ := fun _ => ()) ()
  | cons first _ ih =>
    refine first.bind fun f => ?_
    exact (h.sigma entry f.entry).bind fun _ => (h.sigma f.exit exit).bind fun _ => ih

theorem sideBySide (h : Steady R) (all : LockstepAll R passes steps) :
    Lockstep R (sideBySide passes) (Fragment.sideBySide steps) Part.fragment := by
  cases all with
  | nil => exact .throw _
  | cons first rest =>
    exact h.newState.bind fun entry => h.newState.bind fun exit =>
      (h.branches (.cons first rest) entry exit).bind fun _ => .part entry exit

variable {body : Pass Part} {step : Fragment.Step Fragment}

theorem copies (h : Steady R) (each : Lockstep R body step Part.fragment) (n : Nat)
    (tail : StateId) (last : Option Part) :
    Lockstep R (copies body n tail last)
      (Fragment.copies step n tail.index (last.map Part.fragment))
      (Prod.map StateId.index (Option.map Part.fragment)) := by
  induction n generalizing tail last with
  | zero => exact .pure (φ := Prod.map StateId.index (Option.map Part.fragment)) (tail, last)
  | succ n ih =>
    refine each.bind fun f => ?_
    exact (h.sigma tail f.entry).bind fun _ => ih f.exit (some f)

theorem optionalCopies (h : Steady R) (each : Lockstep R body step Part.fragment) (exit : StateId)
    (n : Nat) (tail : StateId) :
    Lockstep R (optionalCopies body exit n tail)
      (Fragment.optionalCopies step exit.index n tail.index) StateId.index := by
  induction n generalizing tail with
  | zero => exact .pure tail
  | succ n ih =>
    refine each.bind fun f => ?_
    exact (h.sigma tail f.entry).bind fun _ => (h.sigma tail exit).bind fun _ => ih f.exit

theorem loopBody (h : Steady R) (each : Lockstep R body step Part.fragment) (exit tail : StateId)
    (last : Option Part) :
    Lockstep R (loopBody body exit tail last)
      (Fragment.loopBody step exit.index tail.index (last.map Part.fragment)) Part.fragment := by
  cases last with
  | some f => exact .pure f
  | none =>
    refine each.bind fun f => ?_
    exact (h.sigma tail f.entry).bind fun _ => (h.sigma tail exit).bind fun _ => .pure f

theorem further (h : Steady R) (each : Lockstep R body step Part.fragment) (exit tail : StateId)
    (last : Option Part) (extra : Option Nat) :
    Lockstep R (further body exit tail last extra)
      (Fragment.further step exit.index tail.index (last.map Part.fragment) extra)
      fun _ => () := by
  cases extra with
  | some n => exact (h.optionalCopies each exit n tail).bind fun tail => h.sigma tail exit
  | none =>
    refine (h.loopBody each exit tail last).bind fun f => ?_
    exact (h.sigma f.exit f.entry).bind fun _ => h.sigma f.exit exit

theorem repeated (h : Steady R) (each : Lockstep R body step Part.fragment) (min : Nat)
    (max : Option Nat) :
    Lockstep R (repeated body min max) (Fragment.repeated step min max) Part.fragment := by
  rw [OnePass.repeated, Fragment.repeated_eq]
  split
  · exact .throw _
  · refine h.newState.bind fun entry => (h.copies each min entry none).bind fun r => ?_
    refine h.newState.bind fun exit => ?_
    exact (h.further each exit r.1 r.2 (max.map (· - min))).bind fun _ => .part entry exit

end Steady

/-- Behind a compilation that succeeds there is a pass that succeeds. -/
theorem exists_automatonOf_of_compile {tag : Nat} {mode : Mode} {e : Expr} {A : Automaton}
    (ok : compile tag mode e = .ok A) :
    ∃ made, (automatonOf mode (pass mode e)).run ⟨.empty 0, ∅, tag⟩ = .ok (A, made) := by
  have run : compile tag mode e =
    Prod.fst <$> (automatonOf mode (pass mode e)).run ⟨.empty 0, ∅, tag⟩ := rfl
  rw [run] at ok
  cases compiled : (automatonOf mode (pass mode e)).run ⟨.empty 0, ∅, tag⟩ with
  | error err =>
    rw [compiled] at ok
    cases ok
  | ok r =>
    rw [compiled] at ok
    cases ok
    exact ⟨r.2, rfl⟩

mutual

/-- The pass for an expression with nested automata from any source. -/
def passWith (nest : Expr → Pass Nested) (mode : Mode) : Expr → Pass Part
  | .charClass c => single (.set c.chars)
  | .literal text => chain text
  | .sequence items => inSequence (passAllWith nest mode items)
  | .alternatives items => sideBySide (passAllWith nest mode items)
  | .repetition body min max => repeated (passWith nest mode body) min max
  | .lookahead body negated => do single (.check (← nest body) mode negated)

def passAllWith (nest : Expr → Pass Nested) (mode : Mode) : List Expr → List (Pass Part)
  | [] => []
  | e :: es => passWith nest mode e :: passAllWith nest mode es

end

mutual

theorem passWith_once (mode : Mode) :
    (e : Expr) → passWith (fun b => once mode b (pass mode b)) mode e = pass mode e
  | .charClass _ => rfl
  | .literal _ => rfl
  | .sequence items => congrArg inSequence (passAllWith_once mode items)
  | .alternatives items => congrArg sideBySide (passAllWith_once mode items)
  | .repetition body min max => congrArg (repeated · min max) (passWith_once mode body)
  | .lookahead _ _ => rfl

theorem passAllWith_once (mode : Mode) :
    (es : List Expr) → passAllWith (fun b => once mode b (pass mode b)) mode es = passAll mode es
  | [] => rfl
  | e :: es => congrArg₂ List.cons (passWith_once mode e) (passAllWith_once mode es)

end

/-- The lookaheads with the given body are constructed in lockstep. -/
def Looks (R : Workshop → Draft → Prop) (nest : Expr → Pass Nested) (mode : Mode) (b : Expr) :
    Prop :=
  ∀ negated, Lockstep R (do single (.check (← nest b) mode negated))
    (Fragment.single (.check b mode negated)) Part.fragment

variable {nest : Expr → Pass Nested} {mode : Mode}

mutual

theorem lockstep_pass (h : Steady R) : (e : Expr) → (∀ b, e.HasBody b → Looks R nest mode b) →
    Lockstep R (passWith nest mode e) (Fragment.ofExpr mode e) Part.fragment
  | .charClass c, _ => h.single (h.set c.chars)
  | .literal text, _ => h.chain text
  | .sequence items, looks =>
    h.inSequence (lockstep_passAll h items fun _ he b has => looks b (.of_child he has))
  | .alternatives items, looks =>
    h.sideBySide (lockstep_passAll h items fun _ he b has => looks b (.of_child he has))
  | .repetition body min max, looks =>
    h.repeated (lockstep_pass h body fun b has => looks b (.of_child List.mem_cons_self has))
      min max
  | .lookahead body negated, looks => looks body ⟨negated, by simp [Expr.walk]⟩ negated

theorem lockstep_passAll (h : Steady R) : (es : List Expr) →
    (∀ e ∈ es, ∀ b, e.HasBody b → Looks R nest mode b) →
    LockstepAll R (passAllWith nest mode es) (Fragment.ofExprs mode es)
  | [], _ => .nil
  | e :: es, looks =>
    .cons (lockstep_pass h e (looks e List.mem_cons_self))
      (lockstep_passAll h es fun e he => looks e (List.mem_cons_of_mem _ he))

end

end OnePass

end PatternAutomata
