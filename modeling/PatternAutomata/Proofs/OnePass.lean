import PatternAutomata.Proofs.Offences
import PatternAutomata.Proofs.Stepwise
import PatternAutomata.Proofs.Strategies

/-!
# Compilation in one pass

The check for malformed parts, the construction and the preparation can also be done in one pass:
faults are reported where they are met, every change of the automaton may fail, and the automaton of
a body is compiled when a lookahead first asks for it and looked up from then on. Such a pass fails
with the fault of the expression and for no other reason (`compile_eq_error_iff`): the states that
it names are its own and alive, what has been compiled is not faulty, and preparing cannot fail. It
is therefore told by the same condition as `Graph.compile`, that the expression has a first offence
(`Graph.compile_firstOffence`).
-/
namespace PatternAutomata

namespace OnePass

/-- What a compilation works on: the automaton being built, the nested automata of the bodies that
are compiled already, and the tag of the next automaton. -/
structure Workshop where
  automaton : Automaton
  known : Graph.Compilations
  nextTag : Nat

/-- The entry and the exit of a piece of automaton, by their names. -/
structure Part where
  entry : StateId
  exit : StateId

abbrev Pass := StateT Workshop (Except Error)

def newState : Pass StateId := fun w =>
  let (g, s) := w.automaton.addState
  .ok (s, { w with automaton := g })

def join (source target : StateId) (c : Condition Nested) : Pass Unit := fun w => do
  let (g, _) ← w.automaton.addTransition source target c
  return ((), { w with automaton := g })

def single (c : Condition Nested) : Pass Part := do
  let entry ← newState
  let exit ← newState
  join entry exit c
  return ⟨entry, exit⟩

def chainFrom (last : StateId) : List Char → Pass StateId
  | [] => return last
  | c :: rest => do
    let next ← newState
    join last next (.char c)
    chainFrom next rest

def chain (text : List Char) : Pass Part := do
  let entry ← newState
  return ⟨entry, ← chainFrom entry text⟩

def appendFrom (exit : StateId) : List (Pass Part) → Pass StateId
  | [] => return exit
  | item :: rest => do
    let f ← item
    join exit f.entry .sigma
    appendFrom f.exit rest

def inSequence : List (Pass Part) → Pass Part
  | [] => throw .emptySequence
  | item :: rest => do
    let f ← item
    return ⟨f.entry, ← appendFrom f.exit rest⟩

def branches (entry exit : StateId) : List (Pass Part) → Pass Unit
  | [] => return
  | item :: rest => do
    let f ← item
    join entry f.entry .sigma
    join f.exit exit .sigma
    branches entry exit rest

def sideBySide : List (Pass Part) → Pass Part
  | [] => throw .emptyAlternatives
  | item :: rest => do
    let entry ← newState
    let exit ← newState
    branches entry exit (item :: rest)
    return ⟨entry, exit⟩

def copies (body : Pass Part) : (n : Nat) → (tail : StateId) → (last : Option Part) →
    Pass (StateId × Option Part)
  | 0, tail, last => return (tail, last)
  | n + 1, tail, _ => do
    let f ← body
    join tail f.entry .sigma
    copies body n f.exit (some f)

def optionalCopies (body : Pass Part) (exit : StateId) : (n : Nat) → (tail : StateId) →
    Pass StateId
  | 0, tail => return tail
  | n + 1, tail => do
    let f ← body
    join tail f.entry .sigma
    join tail exit .sigma
    optionalCopies body exit n f.exit

/-- The part that is repeated without end: the last copy, or a first one that may be left out. -/
def loopBody (body : Pass Part) (exit tail : StateId) : Option Part → Pass Part
  | some f => return f
  | none => do
    let f ← body
    join tail f.entry .sigma
    join tail exit .sigma
    return f

/-- What follows the required copies: a number of further ones, or a loop. -/
def further (body : Pass Part) (exit tail : StateId) (last : Option Part) : Option Nat → Pass Unit
  | some n => do join (← optionalCopies body exit n tail) exit .sigma
  | none => do
    let f ← loopBody body exit tail last
    join f.exit f.entry .sigma
    join f.exit exit .sigma

def repeated (body : Pass Part) (min : Nat) (max : Option Nat) : Pass Part :=
  if max = some 0 || max.any (· < min) then throw (.invalidBounds min max)
  else do
    let entry ← newState
    let (tail, last) ← copies body min entry none
    let exit ← newState
    further body exit tail last (max.map (· - min))
    return ⟨entry, exit⟩

/-- The automaton with the initial and the accepting state that a part names, prepared for a mode
step by step. -/
def finish (mode : Mode) (g : Automaton) (f : Part) : Except Error Automaton := do
  let g ← g.setInitial f.entry
  let g ← g.setAccepting f.exit
  g.prepareStepwise g.tag mode

/-- A new automaton, prepared for a mode. -/
def automatonOf (mode : Mode) (build : Pass Part) : Pass Automaton := fun w => do
  let (f, w) ← build.run { w with automaton := .empty w.nextTag, nextTag := w.nextTag + 1 }
  return (← finish mode w.automaton f, w)

/-- The nested automaton of a body, which is compiled unless it is known. -/
def once (mode : Mode) (body : Expr) (build : Pass Part) : Pass Nested := fun w =>
  match w.known[body]? with
  | some nested => .ok (nested, w)
  | none => do
    let (g, made) ← (automatonOf mode build).run w
    return (.of g, ⟨w.automaton, made.known.insert body (.of g), made.nextTag⟩)

mutual

def pass (mode : Mode) : Expr → Pass Part
  | .charClass c => single (.set c.chars)
  | .literal text => chain text
  | .sequence items => inSequence (passAll mode items)
  | .alternatives items => sideBySide (passAll mode items)
  | .repetition body min max => repeated (pass mode body) min max
  | .lookahead body negated => do
    let nested ← once mode body (pass mode body)
    single (.check nested mode negated)

def passAll (mode : Mode) : List Expr → List (Pass Part)
  | [] => []
  | e :: es => pass mode e :: passAll mode es

end

/-- The automaton of an expression, compiled in one pass. -/
def compile (tag : Nat) (mode : Mode) (e : Expr) : Except Error Automaton :=
  (automatonOf mode (pass mode e)).run' ⟨.empty 0, ∅, tag⟩

namespace Workshop

/-- The automaton is intact, and no body that has been compiled is malformed. -/
structure Sound (w : Workshop) : Prop where
  intact : w.automaton.Intact
  known : ∀ body ∈ w.known, body.fault? = none

/-- A name stands for a live state of the automaton. -/
def Owns (w : Workshop) (s : StateId) : Prop :=
  s.owner = w.automaton.tag ∧ w.automaton.IsLive s.index

def OwnsPart (w : Workshop) (f : Part) : Prop := w.Owns f.entry ∧ w.Owns f.exit

/-- What has been named stays alive. -/
structure Keeps (w w' : Workshop) : Prop where
  sound : w'.Sound
  owns : ∀ s, w.Owns s → w'.Owns s

theorem Sound.keeps {w : Workshop} (h : w.Sound) : w.Keeps w := ⟨h, fun _ => id⟩

theorem Keeps.trans {w w' w'' : Workshop} (h : w.Keeps w') (k : w'.Keeps w'') : w.Keeps w'' :=
  ⟨k.sound, fun s hs => k.owns s (h.owns s hs)⟩

theorem Keeps.ownsPart {w w' : Workshop} {f : Part} (h : w.Keeps w') (hf : w.OwnsPart f) :
    w'.OwnsPart f :=
  ⟨h.owns _ hf.1, h.owns _ hf.2⟩

end Workshop

open Workshop

variable {α β : Type} {w : Workshop} {p : Pass α} {fault fault' : Option Error}
  {Q : Workshop → α → Prop} {R : Workshop → β → Prop} {mode : Mode}

/-- A pass fails with the fault, if there is one. Otherwise it succeeds, what has been named stays
alive, and its result has a property. -/
def Yields (w : Workshop) (p : Pass α) (fault : Option Error) (Q : Workshop → α → Prop) : Prop :=
  match fault with
  | some err => p.run w = .error err
  | none => ∃ a w', p.run w = .ok (a, w') ∧ w.Keeps w' ∧ Q w' a

theorem Yields.bind {k : α → Pass β} (h : Yields w p fault Q)
    (next : ∀ w' a, w.Keeps w' → Q w' a → Yields w' (k a) fault' R) :
    Yields w (p >>= k) (fault.or fault') R := by
  cases fault with
  | some err =>
    have failed : p.run w = .error err := h
    show (p >>= k).run w = .error err
    rw [StateT.run_bind, failed]
    rfl
  | none =>
    obtain ⟨a, w', ok, keeps, q⟩ := h
    have second := next w' a keeps q
    have run : (p >>= k).run w = (k a).run w' := by
      rw [StateT.run_bind, ok]
      rfl
    rw [Option.none_or]
    cases fault' with
    | some err => exact run.trans second
    | none =>
      obtain ⟨b, w'', ok', keeps', r⟩ := second
      exact ⟨b, w'', run.trans ok', keeps.trans keeps', r⟩

theorem Yields.pure {a : α} (sound : w.Sound) (q : Q w a) : Yields w (Pure.pure a) none Q :=
  ⟨a, w, rfl, sound.keeps, q⟩

theorem Yields.throw (err : Error) : Yields w (throw err) (some err) Q := rfl

theorem Yields.imp {R : Workshop → α → Prop} (h : Yields w p fault Q)
    (imp : ∀ w' a, Q w' a → R w' a) : Yields w p fault R := by
  cases fault with
  | some err => exact h
  | none =>
    obtain ⟨a, w', ok, keeps, q⟩ := h
    exact ⟨a, w', ok, keeps, imp w' a q⟩

theorem yields_newState (sound : w.Sound) : Yields w newState none Owns := by
  refine ⟨_, _, rfl, ⟨⟨sound.intact.addBareState false, sound.known⟩, ?_⟩, rfl, ?_⟩
  · rintro s ⟨own, state, found, alive⟩
    refine ⟨own, state, ?_, alive⟩
    have bound := (Array.getElem?_eq_some_iff.mp found).1
    simp [Graph.addBareState, Array.getElem?_push, Nat.ne_of_lt bound, found]
  · exact ⟨.bare false, by simp [Graph.addBareState], rfl⟩

theorem liveState_of_owns {s : StateId} (h : w.Owns s) :
    ∃ state, w.automaton.liveState s = .ok state := by
  obtain ⟨own, state, found, alive⟩ := h
  refine ⟨state, ?_⟩
  simp only [Graph.liveState, Graph.ownState, Graph.state?, own, if_true, found]
  change (if state.deleted then _ else _) = _
  rw [alive]
  rfl

theorem yields_join {s t : StateId} (sound : w.Sound) (hs : w.Owns s) (ht : w.Owns t)
    (c : Condition Nested) : Yields w (join s t c) none fun _ _ => True := by
  obtain ⟨state, found⟩ := liveState_of_owns hs
  obtain ⟨state', found'⟩ := liveState_of_owns ht
  refine ⟨(), { w with automaton := w.automaton.connect ⟨s.index, t.index, c⟩ }, ?_,
    ⟨⟨sound.intact.connect hs.2 ht.2, sound.known⟩, ?_⟩, trivial⟩
  · change (do let (g, _) ← w.automaton.addTransition s t c; _) = _
    simp only [Graph.addTransition, found, found']
    rfl
  · rintro r ⟨own, live⟩
    exact ⟨own, Graph.isLive_connect.mpr live⟩

/-- Joins two states that are there, and goes on. -/
theorem Yields.join {s t : StateId} {c : Condition Nested} {k : Unit → Pass α} (sound : w.Sound)
    (hs : w.Owns s) (ht : w.Owns t) (next : ∀ w', w.Keeps w' → Yields w' (k ()) fault Q) :
    Yields w (OnePass.join s t c >>= k) fault Q := by
  have whole := (yields_join sound hs ht c).bind fun w' _ keeps _ => next w' keeps
  exact whole

/-- Adds a state, and goes on. -/
theorem Yields.newState {k : StateId → Pass α} (sound : w.Sound)
    (next : ∀ w' s, w.Keeps w' → w'.Owns s → Yields w' (k s) fault Q) :
    Yields w (OnePass.newState >>= k) fault Q := by
  have whole := (yields_newState sound).bind next
  exact whole

theorem yields_single (sound : w.Sound) (c : Condition Nested) :
    Yields w (single c) none OwnsPart := by
  refine .newState sound fun w₁ entry k₁ o₁ => .newState k₁.sound fun w₂ exit k₂ o₂ => ?_
  refine .join k₂.sound (k₂.owns _ o₁) o₂ fun w₃ k₃ => ?_
  exact .pure k₃.sound ⟨k₃.owns _ (k₂.owns _ o₁), k₃.owns _ o₂⟩

theorem yields_chainFrom (text : List Char) {last : StateId} (sound : w.Sound)
    (own : w.Owns last) : Yields w (chainFrom last text) none Owns := by
  induction text generalizing w last with
  | nil => exact .pure sound own
  | cons c rest ih =>
    refine .newState sound fun w₁ next k₁ o₁ => ?_
    refine .join k₁.sound (k₁.owns _ own) o₁ fun w₂ k₂ => ?_
    exact ih k₂.sound (k₂.owns _ o₁)

theorem yields_chain (sound : w.Sound) (text : List Char) :
    Yields w (chain text) none OwnsPart := by
  refine .newState sound fun w₁ entry k₁ o₁ => ?_
  rw [← Option.or_none (o := (none : Option Error))]
  refine (yields_chainFrom text k₁.sound o₁).bind fun w₂ exit k₂ o₂ => ?_
  exact .pure k₂.sound ⟨k₂.owns _ o₁, o₂⟩

/-- From any sound workshop, a pass fails with the fault or builds a part. -/
def Constructs (p : Pass Part) (fault : Option Error) : Prop :=
  ∀ w, w.Sound → Yields w p fault OwnsPart

/-- Passes construct the parts of expressions, or fail with their faults. -/
abbrev ConstructsAll : List (Pass Part) → List Expr → Prop :=
  List.Forall₂ fun p e => Constructs p e.fault?

theorem yields_appendFrom {passes : List (Pass Part)} {items : List Expr} {exit : StateId}
    (h : ConstructsAll passes items) (sound : w.Sound) (own : w.Owns exit) :
    Yields w (appendFrom exit passes) (items.findSome? Expr.fault?) Owns := by
  induction h generalizing w exit with
  | nil => exact .pure sound own
  | @cons p e passes items first _ ih =>
    rw [Expr.findSome?_cons_eq_or]
    refine (first w sound).bind fun w₁ f k₁ o₁ => ?_
    refine .join k₁.sound (k₁.owns _ own) o₁.1 fun w₂ k₂ => ?_
    exact ih k₂.sound (k₂.owns _ o₁.2)

theorem constructs_inSequence {passes : List (Pass Part)} {items : List Expr}
    (h : ConstructsAll passes items) :
    Constructs (inSequence passes) (Expr.sequence items).fault? := by
  intro w sound
  cases h with
  | nil => exact .throw _
  | @cons p e passes items first rest =>
    rw [Expr.fault?_of_own rfl, Expr.children, Expr.findSome?_cons_eq_or]
    refine (first w sound).bind fun w₁ f k₁ o₁ => ?_
    rw [← Option.or_none (o := items.findSome? _)]
    refine (yields_appendFrom rest k₁.sound o₁.2).bind fun w₂ exit k₂ o₂ => ?_
    exact .pure k₂.sound ⟨k₂.owns _ o₁.1, o₂⟩

theorem yields_branches {passes : List (Pass Part)} {items : List Expr} {entry exit : StateId}
    (h : ConstructsAll passes items) (sound : w.Sound) (own : w.Owns entry) (own' : w.Owns exit) :
    Yields w (branches entry exit passes) (items.findSome? Expr.fault?) fun _ _ => True := by
  induction h generalizing w with
  | nil => exact .pure sound trivial
  | @cons p e passes items first _ ih =>
    rw [Expr.findSome?_cons_eq_or]
    refine (first w sound).bind fun w₁ f k₁ o₁ => ?_
    refine .join k₁.sound (k₁.owns _ own) o₁.1 fun w₂ k₂ => ?_
    refine .join k₂.sound (k₂.owns _ o₁.2) (k₂.owns _ (k₁.owns _ own')) fun w₃ k₃ => ?_
    have k := (k₁.trans k₂).trans k₃
    exact ih k₃.sound (k.owns _ own) (k.owns _ own')

theorem constructs_sideBySide {passes : List (Pass Part)} {items : List Expr}
    (h : ConstructsAll passes items) :
    Constructs (sideBySide passes) (Expr.alternatives items).fault? := by
  intro w sound
  cases h with
  | nil => exact .throw _
  | @cons p e passes items first rest =>
    rw [Expr.fault?_of_own rfl, Expr.children]
    refine .newState sound fun w₁ entry k₁ o₁ => .newState k₁.sound fun w₂ exit k₂ o₂ => ?_
    rw [← Option.or_none (o := List.findSome? _ _)]
    refine (yields_branches (.cons first rest) k₂.sound (k₂.owns _ o₁) o₂).bind
      fun w₃ _ k₃ _ => ?_
    exact .pure k₃.sound ⟨k₃.owns _ (k₂.owns _ o₁), k₃.owns _ o₂⟩

/-- A number of copies has the fault of the first one. -/
def anyCopy (n : Nat) (fault : Option Error) : Option Error := if n = 0 then none else fault

theorem or_anyCopy (n : Nat) (fault : Option Error) :
    fault.or (anyCopy n fault) = fault := by
  unfold anyCopy
  cases fault <;> split <;> rfl

theorem yields_copies {body : Pass Part} (h : Constructs body fault) (n : Nat) {tail : StateId}
    {last : Option Part} (sound : w.Sound) (own : w.Owns tail) (before : ∀ f ∈ last, w.OwnsPart f) :
    Yields w (copies body n tail last) (anyCopy n fault) fun w' r =>
      w'.Owns r.1 ∧ (∀ f ∈ r.2, w'.OwnsPart f) ∧ (r.2 = none ↔ last = none ∧ n = 0) := by
  induction n generalizing w tail last with
  | zero => exact .pure sound ⟨own, before, by simp⟩
  | succ n ih =>
    rw [anyCopy, if_neg n.succ_ne_zero, ← or_anyCopy n fault]
    refine (h w sound).bind fun w₁ f k₁ o₁ => ?_
    refine .join k₁.sound (k₁.owns _ own) o₁.1 fun w₂ k₂ => ?_
    have kept : ∀ f' ∈ some f, w₂.OwnsPart f' := by
      rintro _ ⟨⟩
      exact k₂.ownsPart o₁
    refine (ih k₂.sound (k₂.owns _ o₁.2) kept).imp ?_
    rintro w₃ r ⟨o₃, held, empty⟩
    exact ⟨o₃, held, by simp [empty]⟩

theorem yields_optionalCopies {body : Pass Part} (h : Constructs body fault) (n : Nat)
    {exit tail : StateId} (sound : w.Sound) (own : w.Owns exit) (own' : w.Owns tail) :
    Yields w (optionalCopies body exit n tail) (anyCopy n fault) Owns := by
  induction n generalizing w tail with
  | zero => exact .pure sound own'
  | succ n ih =>
    rw [anyCopy, if_neg n.succ_ne_zero, ← or_anyCopy n fault]
    refine (h w sound).bind fun w₁ f k₁ o₁ => ?_
    refine .join k₁.sound (k₁.owns _ own') o₁.1 fun w₂ k₂ => ?_
    have k := k₁.trans k₂
    refine .join k₂.sound (k.owns _ own') (k.owns _ own) fun w₃ k₃ => ?_
    exact ih k₃.sound (k₃.owns _ (k.owns _ own)) (k₃.owns _ (k₂.owns _ o₁.2))

theorem yields_loopBody {body : Pass Part} (h : Constructs body fault) {exit tail : StateId}
    {last : Option Part} (sound : w.Sound) (own : w.Owns exit) (own' : w.Owns tail)
    (before : ∀ f ∈ last, w.OwnsPart f) :
    Yields w (loopBody body exit tail last) (if last = none then fault else none) OwnsPart := by
  cases last with
  | some f => exact .pure sound (before f rfl)
  | none =>
    rw [if_pos rfl, ← Option.or_none (o := fault)]
    refine (h w sound).bind fun w₁ f k₁ o₁ => ?_
    refine .join k₁.sound (k₁.owns _ own') o₁.1 fun w₂ k₂ => ?_
    have k := k₁.trans k₂
    refine .join k₂.sound (k.owns _ own') (k.owns _ own) fun w₃ k₃ => ?_
    exact .pure k₃.sound (k₃.ownsPart (k₂.ownsPart o₁))

theorem yields_further {body : Pass Part} (h : Constructs body fault) {exit tail : StateId}
    {last : Option Part} (sound : w.Sound) (own : w.Owns exit) (own' : w.Owns tail)
    (before : ∀ f ∈ last, w.OwnsPart f) (extra : Option Nat) :
    Yields w (further body exit tail last extra)
      (extra.elim (if last = none then fault else none) fun n => anyCopy n fault)
      fun _ _ => True := by
  rw [← Option.or_none (o := extra.elim _ _)]
  cases extra with
  | some n =>
    refine (yields_optionalCopies h n sound own own').bind fun w₁ tail k₁ o₁ => ?_
    exact yields_join k₁.sound o₁ (k₁.owns _ own) .sigma
  | none =>
    refine (yields_loopBody h sound own own' before).bind fun w₁ f k₁ o₁ => ?_
    refine .join k₁.sound o₁.2 o₁.1 fun w₂ k₂ => ?_
    exact yields_join k₂.sound (k₂.owns _ o₁.2) (k₂.owns _ (k₁.owns _ own)) .sigma

/-- Bounds that are not malformed ask for a copy. -/
theorem fault_of_bounds (fault : Option Error) {min : Nat} {max : Option Nat}
    (good : ¬ (max = some 0 || max.any (· < min)) = true) :
    (anyCopy min fault).or ((max.map (· - min)).elim (if min = 0 then fault else none)
      fun n => anyCopy n fault) = fault := by
  unfold anyCopy
  cases max with
  | none => by_cases copy : min = 0 <;> cases fault <;> simp [copy]
  | some max =>
    simp only [Option.some.injEq, Option.any_some, Bool.or_eq_true, decide_eq_true_eq,
      not_or] at good
    by_cases copy : min = 0
    · simp [copy, good.1]
    · cases fault <;> simp [copy]

theorem constructs_repeated {body : Pass Part} {e : Expr} (h : Constructs body e.fault?)
    (min : Nat) (max : Option Nat) :
    Constructs (repeated body min max) (Expr.repetition e min max).fault? := by
  intro w sound
  rw [Expr.fault?_eq, Expr.ownFault?, repeated, Expr.children, Expr.findSome?_cons_eq_or,
    List.findSome?_nil, Option.or_none]
  split
  · exact .throw _
  · rename_i good
    rw [Option.none_or, ← fault_of_bounds e.fault? good]
    refine .newState sound fun w₁ entry k₁ o₁ => ?_
    refine (yields_copies h min k₁.sound o₁ (by simp)).bind fun w₂ copies k₂ o₂ => ?_
    obtain ⟨tail, last⟩ := copies
    obtain ⟨o₂, held, empty⟩ := o₂
    have first : min = 0 ↔ last = none := by simp [empty]
    refine .newState k₂.sound fun w₃ exit k₃ o₃ => ?_
    rw [← Option.or_none (o := Option.elim _ _ _)]
    simp only [first]
    refine (yields_further h k₃.sound o₃ (k₃.owns _ o₂) (fun f hf => k₃.ownsPart (held f hf))
      (max.map (· - min))).bind fun w₄ _ k₄ _ => ?_
    exact .pure k₄.sound ⟨k₄.owns _ (k₃.owns _ (k₂.owns _ o₁)), k₄.owns _ o₃⟩

/-- A part of an automaton is finished by naming its entry and its exit and by preparing what there
is then, which is as intact as before. -/
theorem exists_finish_eq {f : Part} (sound : w.Sound) (own : w.OwnsPart f) :
    ∃ g : Automaton, g.Intact ∧ g.initial = some f.entry.index ∧ g.tag = w.automaton.tag ∧
      g.transitions = w.automaton.transitions ∧
        ∀ mode, finish mode w.automaton f = g.prepare g.tag mode := by
  obtain ⟨state, found⟩ := liveState_of_owns own.1
  obtain ⟨state', found'⟩ := liveState_of_owns own.2
  let g : Automaton := { w.automaton with initial := some f.entry.index }
  let h : Automaton :=
    { g with states := g.states.modify f.exit.index fun s => { s with accepting := true } }
  have first : w.automaton.setInitial f.entry = .ok g := by
    rw [Graph.setInitial, found]
    rfl
  have last : g.setAccepting f.exit = .ok h := by
    have same : g.liveState f.exit = .ok state' := found'
    rw [Graph.setAccepting, same]
    rfl
  have intact : h.Intact := (sound.intact.setInitial own.1.2).modify _ _ (fun _ => rfl)
    (fun _ => rfl) (.inl fun _ => rfl)
  refine ⟨h, intact, rfl, rfl, rfl, fun mode => ?_⟩
  rw [finish, first]
  change (do let g ← g.setAccepting f.exit; g.prepareStepwise g.tag mode) = _
  rw [last]
  exact Graph.prepareStepwise_eq intact h.tag mode

theorem exists_finish {f : Part} (sound : w.Sound) (own : w.OwnsPart f) (mode : Mode) :
    ∃ g, finish mode w.automaton f = .ok g := by
  obtain ⟨g, intact, initial, -, -, finished⟩ := exists_finish_eq sound own
  obtain ⟨h, prepared, -⟩ := Graph.exists_prepare intact initial g.tag mode
  exact ⟨h, (finished mode).trans prepared⟩

/-- The workshop in which an automaton of its own is begun. -/
def Workshop.begun (w : Workshop) : Workshop :=
  { w with automaton := .empty w.nextTag, nextTag := w.nextTag + 1 }

/-- An automaton can be made of a part that can be constructed, whatever else is known. -/
theorem exists_automatonOf {build : Pass Part} (h : Constructs build none) (sound : w.Sound)
    (mode : Mode) : ∃ g w', (automatonOf mode build).run w = .ok (g, w') ∧ w'.Sound := by
  obtain ⟨f, w', ok, keeps, own⟩ := h w.begun ⟨.empty _, sound.known⟩
  obtain ⟨g, finished⟩ := exists_finish keeps.sound own mode
  refine ⟨g, w', ?_, keeps.sound⟩
  change (do let (f, w) ← build.run w.begun; return (← finish mode w.automaton f, w)) = _
  rw [ok]
  change (do return (← finish mode w'.automaton f, w')) = _
  rw [finished]
  rfl

theorem automatonOf_error {build : Pass Part} {err : Error} (h : Constructs build (some err))
    (sound : w.Sound) (mode : Mode) : (automatonOf mode build).run w = .error err := by
  have failed : build.run w.begun = .error err := h w.begun ⟨.empty _, sound.known⟩
  change (do let (f, w) ← build.run w.begun; return (← finish mode w.automaton f, w)) = _
  rw [failed]
  rfl

theorem of_automatonOf_ok {build : Pass Part} {g : Automaton} {made : Workshop}
    (ok : (automatonOf mode build).run w = .ok (g, made)) :
    ∃ f, build.run w.begun = .ok (f, made) ∧ finish mode made.automaton f = .ok g := by
  have run : (automatonOf mode build).run w = build.run w.begun >>= fun r =>
      finish mode r.2.automaton r.1 >>= fun g => Pure.pure (g, r.2) := rfl
  obtain ⟨⟨f, made⟩, built, ok⟩ := bind_eq_ok.mp (run.symm.trans ok)
  obtain ⟨h, finished, ⟨⟩⟩ := bind_eq_ok.mp ok
  exact ⟨f, built, finished⟩

theorem once_of_known {body : Expr} {build : Pass Part} {nested : Nested}
    (held : w.known[body]? = some nested) : (once mode body build).run w = .ok (nested, w) := by
  simp only [StateT.run, once, held]

theorem once_of_new {body : Expr} {build : Pass Part} (held : w.known[body]? = none) :
    (once mode body build).run w = do
      let (g, made) ← (automatonOf mode build).run w
      return (.of g, ⟨w.automaton, made.known.insert body (.of g), made.nextTag⟩) := by
  simp only [StateT.run, once, held]

/-- Looking a body up does not hide a fault, since no body that is known has one. -/
theorem yields_once {body : Expr} {build : Pass Part} (h : Constructs build body.fault?)
    (sound : w.Sound) (mode : Mode) :
    Yields w (once mode body build) body.fault? fun _ _ => True := by
  cases held : w.known[body]? with
  | some nested =>
    rw [sound.known body (Std.HashMap.mem_iff_isSome_getElem?.mpr (by rw [held]; rfl))]
    exact ⟨nested, w, once_of_known held, sound.keeps, trivial⟩
  | none =>
    cases fault : body.fault? with
    | some err =>
      rw [fault] at h
      refine (once_of_new held).trans ?_
      rw [automatonOf_error h sound mode]
      rfl
    | none =>
      rw [fault] at h
      obtain ⟨g, made, ok, sound'⟩ := exists_automatonOf h sound mode
      refine ⟨.of g, ⟨w.automaton, made.known.insert body (.of g), made.nextTag⟩, ?_,
        ⟨⟨sound.intact, ?_⟩, fun _ => id⟩, trivial⟩
      · refine (once_of_new held).trans ?_
        rw [ok]
        rfl
      · intro b hb
        rcases Std.HashMap.mem_insert.mp hb with same | old
        · rw [← eq_of_beq same, fault]
        · exact sound'.known b old

mutual

theorem constructs_pass (mode : Mode) : (e : Expr) → Constructs (pass mode e) e.fault?
  | .charClass c => fun w sound => yields_single sound (.set c.chars)
  | .literal text => fun w sound => yields_chain sound text
  | .sequence items => constructs_inSequence (constructs_passAll mode items)
  | .alternatives items => constructs_sideBySide (constructs_passAll mode items)
  | .repetition body min max => constructs_repeated (constructs_pass mode body) min max
  | .lookahead body negated => by
    intro w sound
    rw [Expr.fault?_of_own rfl, Expr.children, Expr.findSome?_cons_eq_or]
    refine (yields_once (constructs_pass mode body) sound mode).bind fun w₁ nested k₁ _ => ?_
    exact yields_single k₁.sound (.check nested mode negated)

theorem constructs_passAll (mode : Mode) : (es : List Expr) → ConstructsAll (passAll mode es) es
  | [] => .nil
  | e :: es => .cons (constructs_pass mode e) (constructs_passAll mode es)

end

/-- A compilation in one pass fails with the fault of the expression, and for no other reason. -/
theorem compile_eq_error_iff {tag : Nat} {e : Expr} {err : Error} :
    compile tag mode e = .error err ↔ e.fault? = some err := by
  have sound : Workshop.Sound ⟨.empty 0, ∅, tag⟩ := ⟨.empty 0, by simp⟩
  have made := constructs_pass mode e
  cases fault : e.fault? with
  | some err' =>
    rw [fault] at made
    have failed : compile tag mode e = .error err' := by
      change Prod.fst <$> (automatonOf mode (pass mode e)).run ⟨.empty 0, ∅, tag⟩ = _
      rw [automatonOf_error made sound mode]
      rfl
    rw [failed, Except.error.injEq, Option.some.injEq]
  | none =>
    rw [fault] at made
    obtain ⟨g, w, ok, -⟩ := exists_automatonOf made sound mode
    have compiled : compile tag mode e = .ok g := by
      change Prod.fst <$> (automatonOf mode (pass mode e)).run ⟨.empty 0, ∅, tag⟩ = _
      rw [ok]
      rfl
    simp [compiled]

end OnePass

namespace Graph

theorem compile_eq_error_iff {tag : Nat} {mode : Mode} {e : Expr} {err : Error} :
    compile tag mode e = .error err ↔ e.fault? = some err := by
  cases fault : e.fault? with
  | some err' =>
    have failed : compile tag mode e = .error err' := by
      rw [compile, fault]
    rw [failed, Except.error.injEq, Option.some.injEq]
  | none =>
    obtain ⟨g, i, compiled, -⟩ := compile_spec fault tag mode
    simp [compiled]

/-- Preparing what has been constructed adds no error of its own. -/
theorem prepare_construct_eq_error_iff {tag : Nat} {mode mode' : Mode} {nest : Nat → Expr → Nested}
    {e : Expr} {err : Error} :
    (do (← construct tag mode nest e).prepare tag mode') = .error err ↔ e.fault? = some err := by
  cases fault : e.fault? with
  | some err' =>
    have failed : construct tag mode nest e = .error err' := by
      rw [construct, fault]
    rw [failed, Option.some.injEq]
    exact Except.error.injEq err' err ▸ Iff.rfl
  | none =>
    have made := constructed fault tag mode
    obtain ⟨i, initial, -⟩ := made.initial
    obtain ⟨h, prepared, -⟩ := exists_prepare (made.intact.mapNested (f := nest)) initial tag mode'
    have built : construct tag mode nest e = .ok ((ofExpr tag mode e).mapNested nest) := by
      rw [construct, fault]
    rw [built]
    change prepare tag mode' _ = _ ↔ _
    simp [prepared]

/-- It makes no difference if what has been constructed is prepared step by step. -/
theorem prepareStepwise_construct (tag : Nat) (mode mode' : Mode) (nest : Nat → Expr → Nested)
    (e : Expr) : (do (← construct tag mode nest e).prepareStepwise tag mode') =
      (do (← construct tag mode nest e).prepare tag mode') := by
  cases fault : e.fault? with
  | some err =>
    rw [construct, fault]
    rfl
  | none =>
    have intact := (constructed fault tag mode).intact.mapNested (f := nest)
    rw [construct, fault]
    exact prepareStepwise_eq intact tag mode'

/-- Compilation fails exactly on expressions with a malformed part, with the error of the first
one, in every mode. Compiling in one pass fails in the same way, and preparing an automaton as
constructed never does, as a whole or step by step. -/
theorem compile_firstOffence (tag : Nat) (mode : Mode) (e : Expr) :
    (∀ err, compile tag mode e = .error err ↔ e.FirstOffence err) ∧
      (∀ err, OnePass.compile tag mode e = .error err ↔ e.FirstOffence err) ∧
      (∀ nest mode' err, (do (← construct tag mode nest e).prepare tag mode') = .error err ↔
        e.FirstOffence err) ∧
      (∀ nest mode' err, (do (← construct tag mode nest e).prepareStepwise tag mode') =
        .error err ↔ e.FirstOffence err) ∧
      ((∃ err, compile tag mode e = .error err) ↔
        ∃ address part err, e.at? address = some part ∧ part.Offends err) := by
  refine ⟨fun err => ?_, fun err => ?_, fun nest mode' err => ?_, fun nest mode' err => ?_, ?_⟩
  · rw [compile_eq_error_iff, Expr.fault?_eq_some_iff]
  · rw [OnePass.compile_eq_error_iff, Expr.fault?_eq_some_iff]
  · rw [prepare_construct_eq_error_iff, Expr.fault?_eq_some_iff]
  · rw [prepareStepwise_construct, prepare_construct_eq_error_iff, Expr.fault?_eq_some_iff]
  · constructor
    · rintro ⟨err, failed⟩
      obtain ⟨address, part, found, offends, -⟩ :=
        Expr.fault?_eq_some_iff.mp (compile_eq_error_iff.mp failed)
      exact ⟨address, part, err, found, offends⟩
    · rintro ⟨address, part, err, found, offends⟩
      cases fault : e.fault? with
      | none => exact absurd offends (Expr.not_offends_of_fault? fault found err)
      | some err' => exact ⟨err', compile_eq_error_iff.mpr fault⟩

end Graph

end PatternAutomata
