import PatternAutomata.Proofs.Fragments

/-!
# Spindles

Fragments can be glued with sigma transitions because no fragment leaks: no edge leads into its
entry, none leads out of its exit, and each of its states lies between the two (`Spindle`). What
consumes text does not matter here, so that edges are reduced to their ends. The laws below say that
spindles put together are spindles, and every expression becomes one (`spins_ofExpr`).
-/
namespace PatternAutomata

namespace Expr

mutual

/-- The expression and its parts, without the bodies of lookaheads. -/
def outline : Expr → List Expr
  | charClass c => [charClass c]
  | literal s => [literal s]
  | sequence items => sequence items :: outlineAll items
  | alternatives items => alternatives items :: outlineAll items
  | repetition body min max => repetition body min max :: outline body
  | lookahead body negated => [lookahead body negated]

def outlineAll : List Expr → List Expr
  | [] => []
  | e :: es => outline e ++ outlineAll es

end

mutual

theorem outline_sub_walk : (e : Expr) → e.outline ⊆ e.walk
  | charClass _ | literal _ => by simp [outline, walk]
  | sequence items | alternatives items => by
    rw [outline, walk]
    exact List.cons_subset_cons _ (outlineAll_sub_walkAll items)
  | repetition body _ _ => by
    rw [outline, walk]
    exact List.cons_subset_cons _ (outline_sub_walk body)
  | lookahead _ _ => by simp [outline, walk]

theorem outlineAll_sub_walkAll : (es : List Expr) → outlineAll es ⊆ walkAll es
  | [] => List.nil_subset _
  | e :: es => by
    rw [outlineAll, walkAll]
    exact List.append_subset.mpr
      ⟨List.subset_append_of_subset_left _ (outline_sub_walk e),
        List.subset_append_of_subset_right _ (outlineAll_sub_walkAll es)⟩

end

end Expr

/-- The ends of an edge, its condition left aside. -/
def Edge.arc {ν : Type} (e : Edge ν) : Nat × Nat := (e.source, e.target)

@[simp]
theorem Edge.arc_mk {ν : Type} (s t : Nat) (c : Condition ν) : Edge.arc ⟨s, t, c⟩ = (s, t) := rfl

namespace Fragment

/-- Arcs lead from one state to another. -/
def Way (arcs : List (Nat × Nat)) : Nat → Nat → Prop :=
  Relation.ReflTransGen fun s t => (s, t) ∈ arcs

/-- The arcs join states from `lo` on and below `hi`. -/
def Inside (lo hi : Nat) (arcs : List (Nat × Nat)) : Prop :=
  ∀ a ∈ arcs, (lo ≤ a.1 ∧ a.1 < hi) ∧ lo ≤ a.2 ∧ a.2 < hi

/-- The states from `lo` on and below `hi`, and arcs between them. No arc leads to the entry, none
comes from the exit, and every state lies on a way from the entry to the exit. -/
structure Spindle (lo hi : Nat) (arcs : List (Nat × Nat)) (f : Fragment) : Prop where
  entry : lo ≤ f.entry ∧ f.entry < hi
  exit : lo ≤ f.exit ∧ f.exit < hi
  inside : Inside lo hi arcs
  entry_free : ∀ a ∈ arcs, a.2 ≠ f.entry
  exit_free : ∀ a ∈ arcs, a.1 ≠ f.exit
  through : ∀ s, lo ≤ s → s < hi → Way arcs f.entry s ∧ Way arcs s f.exit

/-- A spindle that is under construction: it goes on at `tail`, and ends at `exit`, which there may
be no way to yet. -/
structure Spun (lo hi : Nat) (arcs : List (Nat × Nat)) (entry tail exit : Nat) : Prop where
  entry_mem : lo ≤ entry ∧ entry < hi
  tail_mem : lo ≤ tail ∧ tail < hi
  exit_mem : lo ≤ exit ∧ exit < hi
  entry_ne : entry ≠ exit
  tail_ne : tail ≠ exit
  inside : Inside lo hi arcs
  entry_free : ∀ a ∈ arcs, a.2 ≠ entry
  exit_free : ∀ a ∈ arcs, a.1 ≠ exit
  reached : ∀ s, lo ≤ s → s < hi → s ≠ exit → Way arcs entry s
  goesOn : ∀ s, lo ≤ s → s < hi → Way arcs s tail ∨ Way arcs s exit

variable {lo mid hi s t entry tail exit : Nat} {A B C : List (Nat × Nat)} {f g : Fragment}

theorem Way.mono (sub : A ⊆ B) (way : Way A s t) : Way B s t :=
  Relation.ReflTransGen.mono (fun _ _ arc => sub arc) s t way

theorem Way.arc (h : (s, t) ∈ A) : Way A s t := .single h

theorem Inside.mono {hi' : Nat} (h : Inside lo hi A) (le : hi ≤ hi') : Inside lo hi' A := by
  intro a ha
  have := h a ha
  omega

/-- The arcs `C` are those of `A` below `mid`, those of `B` from there on, and one from a state `s`
below to a state `t` above. -/
structure Glued (lo mid hi s t : Nat) (A B C : List (Nat × Nat)) : Prop where
  first : Inside lo mid A
  second : Inside mid hi B
  source : lo ≤ s ∧ s < mid
  target : mid ≤ t ∧ t < hi
  mem : ∀ a, a ∈ C ↔ a ∈ A ∨ a ∈ B ∨ a = (s, t)

namespace Glued

theorem left (h : Glued lo mid hi s t A B C) : A ⊆ C := fun a ha => (h.mem a).mpr (.inl ha)

theorem right (h : Glued lo mid hi s t A B C) : B ⊆ C :=
  fun a ha => (h.mem a).mpr (.inr (.inl ha))

theorem bridge (h : Glued lo mid hi s t A B C) : Way C s t :=
  .arc ((h.mem _).mpr (.inr (.inr rfl)))

theorem inside (h : Glued lo mid hi s t A B C) : Inside lo hi C := by
  intro a ha
  have source := h.source
  have target := h.target
  rcases (h.mem a).mp ha with ha | ha | rfl
  · have := h.first a ha
    omega
  · have := h.second a ha
    omega
  · simp only
    omega

/-- No arc comes from above. -/
theorem entry_free (h : Glued lo mid hi s t A B C) (lt : entry < mid)
    (free : ∀ a ∈ A, a.2 ≠ entry) : ∀ a ∈ C, a.2 ≠ entry := by
  intro a ha
  have target := h.target
  rcases (h.mem a).mp ha with ha | ha | rfl
  · exact free a ha
  · have := h.second a ha
    omega
  · simp only
    omega

theorem exit_free_left (h : Glued lo mid hi s t A B C) (lt : exit < mid) (ne : s ≠ exit)
    (free : ∀ a ∈ A, a.1 ≠ exit) : ∀ a ∈ C, a.1 ≠ exit := by
  intro a ha
  rcases (h.mem a).mp ha with ha | ha | rfl
  · exact free a ha
  · have := h.second a ha
    omega
  · exact ne

theorem exit_free_right (h : Glued lo mid hi s t A B C) (le : mid ≤ exit)
    (free : ∀ a ∈ B, a.1 ≠ exit) : ∀ a ∈ C, a.1 ≠ exit := by
  intro a ha
  have source := h.source
  rcases (h.mem a).mp ha with ha | ha | rfl
  · have := h.first a ha
    omega
  · exact free a ha
  · simp only
    omega

end Glued

namespace Spindle

/-- An arc besides a single state would leave it. -/
theorem eq_nil (h : Spindle lo hi A f) (same : f.entry = f.exit) : A = [] := by
  refine List.eq_nil_iff_forall_not_mem.mpr fun a ha => ?_
  have bounds := (h.inside a ha).1
  rcases (h.through a.1 bounds.1 bounds.2).1.cases_head with start | ⟨t, first, -⟩
  · exact h.exit_free a ha (start.symm.trans same)
  · exact h.exit_free (f.entry, t) first same

/-- A single state. -/
theorem state (n : Nat) : Spindle n (n + 1) [] ⟨n, n⟩ where
  entry := by simp
  exit := by simp
  inside := by simp [Inside]
  entry_free := by simp
  exit_free := by simp
  through s le lt := by
    have only : s = n := by omega
    exact only ▸ ⟨.refl, .refl⟩

/-- An arc from the exit of one spindle to the entry of another one makes them one. -/
theorem append (h : Spindle lo mid A f) (k : Spindle mid hi B g)
    (mem : ∀ a, a ∈ C ↔ a ∈ A ∨ a ∈ B ∨ a = (f.exit, g.entry)) :
    Spindle lo hi C ⟨f.entry, g.exit⟩ := by
  have glued : Glued lo mid hi f.exit g.entry A B C := ⟨h.inside, k.inside, h.exit, k.entry, mem⟩
  have across : Way C f.entry g.entry :=
    ((h.through f.entry h.entry.1 h.entry.2).2.mono glued.left).trans glued.bridge
  have onward : Way C f.exit g.exit :=
    glued.bridge.trans ((k.through g.entry k.entry.1 k.entry.2).2.mono glued.right)
  have ends := And.intro h.entry k.exit
  refine ⟨by simp only; omega, by simp only; omega, glued.inside,
    glued.entry_free h.entry.2 h.entry_free, glued.exit_free_right k.exit.1 k.exit_free, ?_⟩
  intro s le lt
  by_cases first : s < mid
  · obtain ⟨before, after⟩ := h.through s le first
    exact ⟨before.mono glued.left, (after.mono glued.left).trans onward⟩
  · obtain ⟨before, after⟩ := k.through s (Nat.not_lt.mp first) lt
    exact ⟨across.trans (before.mono glued.right), after.mono glued.right⟩

/-- A spindle with one more state to end at. -/
theorem opened (h : Spindle lo hi A ⟨entry, tail⟩) : Spun lo (hi + 1) A entry tail hi := by
  have ends : (lo ≤ entry ∧ entry < hi) ∧ lo ≤ tail ∧ tail < hi := ⟨h.entry, h.exit⟩
  refine ⟨by omega, by omega, by omega, by omega, by omega, h.inside.mono (Nat.le_succ hi),
    h.entry_free, ?_, ?_, ?_⟩
  · intro a ha
    have := h.inside a ha
    omega
  · intro s le lt ne
    exact (h.through s le (by omega)).1
  · intro s le lt
    by_cases last : s = hi
    · exact .inr (last ▸ .refl)
    · exact .inl (h.through s le (by omega)).2

end Spindle

namespace Spun

/-- A spindle between the place where the construction goes on and a new such place. -/
theorem attach (h : Spun lo mid A entry tail exit) (k : Spindle mid hi B g)
    (mem : ∀ a, a ∈ C ↔ a ∈ A ∨ a ∈ B ∨ a = (tail, g.entry)) :
    Spun lo hi C entry g.exit exit := by
  have glued : Glued lo mid hi tail g.entry A B C :=
    ⟨h.inside, k.inside, h.tail_mem, k.entry, mem⟩
  have across : Way C entry g.entry :=
    ((h.reached tail h.tail_mem.1 h.tail_mem.2 h.tail_ne).mono glued.left).trans glued.bridge
  have onward : Way C tail g.exit :=
    glued.bridge.trans ((k.through g.entry k.entry.1 k.entry.2).2.mono glued.right)
  have ends := And.intro h.entry_mem (And.intro h.exit_mem k.exit)
  refine ⟨by omega, by omega, by omega, h.entry_ne, by omega, glued.inside,
    glued.entry_free h.entry_mem.2 h.entry_free,
    glued.exit_free_left h.exit_mem.2 h.tail_ne h.exit_free, ?_, ?_⟩
  · intro s le lt ne
    by_cases first : s < mid
    · exact (h.reached s le first ne).mono glued.left
    · exact across.trans ((k.through s (Nat.not_lt.mp first) lt).1.mono glued.right)
  · intro s le lt
    by_cases first : s < mid
    · rcases h.goesOn s le first with on | off
      · exact .inl ((on.mono glued.left).trans onward)
      · exact .inr (off.mono glued.left)
    · exact .inl ((k.through s (Nat.not_lt.mp first) lt).2.mono glued.right)

/-- One more arc, neither from the end nor to the beginning. -/
theorem arc (h : Spun lo hi A entry tail exit) (hs : lo ≤ s ∧ s < hi) (ht : lo ≤ t ∧ t < hi)
    (source : s ≠ exit) (target : t ≠ entry) (mem : ∀ a, a ∈ B ↔ a ∈ A ∨ a = (s, t)) :
    Spun lo hi B entry tail exit := by
  have sub : A ⊆ B := fun a ha => (mem a).mpr (.inl ha)
  refine { h with inside := ?_, entry_free := ?_, exit_free := ?_, reached := ?_, goesOn := ?_ }
  · intro a ha
    rcases (mem a).mp ha with ha | rfl
    · exact h.inside a ha
    · exact ⟨hs, ht⟩
  · intro a ha
    rcases (mem a).mp ha with ha | rfl
    · exact h.entry_free a ha
    · exact target
  · intro a ha
    rcases (mem a).mp ha with ha | rfl
    · exact h.exit_free a ha
    · exact source
  · exact fun s le lt ne => (h.reached s le lt ne).mono sub
  · exact fun s le lt => (h.goesOn s le lt).imp (Way.mono sub) (Way.mono sub)

/-- An arc to the end. -/
theorem close (h : Spun lo hi A entry tail exit) (hs : lo ≤ s ∧ s < hi) (source : s ≠ exit)
    (mem : ∀ a, a ∈ B ↔ a ∈ A ∨ a = (s, exit)) : Spun lo hi B entry tail exit :=
  h.arc hs h.exit_mem source h.entry_ne.symm mem

/-- The construction may go on anywhere once it may end where it has come to. -/
theorem moved (h : Spun lo hi A entry tail exit) (closed : Way A tail exit)
    (hs : lo ≤ s ∧ s < hi) (ne : s ≠ exit) : Spun lo hi A entry s exit :=
  { h with
    tail_mem := hs
    tail_ne := ne
    goesOn := fun r le lt => .inr ((h.goesOn r le lt).elim (fun on => on.trans closed) id) }

/-- A spindle that is complete. -/
theorem spindle (h : Spun lo hi A entry tail exit) (closed : Way A tail exit) :
    Spindle lo hi A ⟨entry, exit⟩ := by
  refine ⟨h.entry_mem, h.exit_mem, h.inside, h.entry_free, h.exit_free, fun s le lt => ⟨?_, ?_⟩⟩
  · have across : Way A entry exit :=
      (h.reached tail h.tail_mem.1 h.tail_mem.2 h.tail_ne).trans closed
    by_cases last : s = exit
    · exact last ▸ across
    · exact h.reached s le lt last
  · exact (h.goesOn s le lt).elim (fun on => on.trans closed) id

/-- The construction ends where it has come to. -/
theorem finish (h : Spun lo hi A entry tail exit)
    (mem : ∀ a, a ∈ B ↔ a ∈ A ∨ a = (tail, exit)) : Spindle lo hi B ⟨entry, exit⟩ :=
  (h.close h.tail_mem h.tail_ne mem).spindle (.arc ((mem _).mpr (.inr rfl)))

/-- A spindle between the place where the construction goes on and the end. -/
theorem branch (h : Spun lo mid A entry tail exit) (k : Spindle mid hi B g)
    (mem : ∀ a, a ∈ C ↔ a ∈ A ∨ a ∈ B ∨ a = (tail, g.entry) ∨ a = (g.exit, exit)) :
    Spun lo hi C entry tail exit ∧ Way C tail exit := by
  have attached := h.attach (C := (tail, g.entry) :: (A ++ B)) k (by grind)
  have closed := attached.close (B := C) attached.tail_mem attached.tail_ne (by grind)
  have last : Way C g.exit exit := .arc (by grind)
  have first : Way C tail g.entry := .arc (by grind)
  have through : Way C g.entry g.exit :=
    (k.through g.entry k.entry.1 k.entry.2).2.mono fun a ha => (mem a).mpr (.inr (.inl ha))
  have tail_mem := h.tail_mem
  have wide := k.entry
  exact ⟨closed.moved last (by omega) h.tail_ne, (first.trans through).trans last⟩

/-- A spindle that may be left out together with what follows. -/
theorem skip (h : Spun lo mid A entry tail exit) (k : Spindle mid hi B g)
    (mem : ∀ a, a ∈ C ↔ a ∈ A ∨ a ∈ B ∨ a = (tail, g.entry) ∨ a = (tail, exit)) :
    Spun lo hi C entry g.exit exit := by
  have attached := h.attach (C := (tail, g.entry) :: (A ++ B)) k (by grind)
  have tail_mem := h.tail_mem
  have wide := k.entry
  exact attached.close (by omega) h.tail_ne (by grind)

end Spun

open Draft (Adds)

variable {mode : Mode} {es : List Expr}

/-- A step appends the states and the edges of a spindle to any draft. -/
def Spins (mode : Mode) (es : List Expr) (step : Step Fragment) : Prop :=
  ∀ d, ∃ E, Adds mode es d (step.run d).2 E ∧
    Spindle d.size (step.run d).2.size (E.map Edge.arc) (step.run d).1

theorem spins_single {c : Condition Expr} (drawn : c.Drawn mode es) :
    Spins mode es (single c) := by
  intro d
  refine ⟨_, (Adds.refl d).grown.grown.linked drawn d.size (d.size + 1), ?_⟩
  exact (Spindle.state d.size).append (.state (d.size + 1)) (by simp)

theorem spun_chainFrom (text : List Char) (last : Nat) (d : Draft) :
    ∃ F, Adds mode es d ((chainFrom last text).run d).2 F ∧
      ∀ {lo A entry}, Spindle lo d.size A ⟨entry, last⟩ →
        Spindle lo ((chainFrom last text).run d).2.size (A ++ F.map Edge.arc)
          ⟨entry, ((chainFrom last text).run d).1⟩ := by
  induction text generalizing last d with
  | nil => exact ⟨[], .refl d, fun {_ A _} spindle => (List.append_nil A).symm ▸ spindle⟩
  | cons c rest ih =>
    rw [run_chainFrom_cons]
    obtain ⟨F, adds, grows⟩ := ih d.size (d.grown.linked last d.size (.char c))
    refine ⟨_, ((Adds.refl d).grown.linked (c := .char c) trivial last d.size).trans adds, ?_⟩
    intro lo A entry spindle
    have longer := spindle.append (.state d.size) (C := A ++ [(last, d.size)]) (by simp)
    simpa using grows longer

theorem spins_chain (text : List Char) : Spins mode es (chain text) := by
  intro d
  rw [run_chain]
  obtain ⟨F, adds, grows⟩ := @spun_chainFrom mode es text d.size d.grown
  exact ⟨_, (Adds.refl d).grown.trans adds, grows (.state d.size)⟩

/-- Each of the steps appends a spindle. -/
abbrev SpinAll (mode : Mode) (es : List Expr) (steps : List (Step Fragment)) : Prop :=
  ∀ step ∈ steps, Spins mode es step

theorem spun_appendFrom {steps : List (Step Fragment)} (h : SpinAll mode es steps) (exit : Nat)
    (d : Draft) : ∃ F, Adds mode es d ((appendFrom exit steps).run d).2 F ∧
      ∀ {lo A entry}, Spindle lo d.size A ⟨entry, exit⟩ →
        Spindle lo ((appendFrom exit steps).run d).2.size (A ++ F.map Edge.arc)
          ⟨entry, ((appendFrom exit steps).run d).1⟩ := by
  induction steps generalizing exit d with
  | nil => exact ⟨[], .refl d, fun {_ A _} spindle => (List.append_nil A).symm ▸ spindle⟩
  | cons step steps ih =>
    obtain ⟨first, others⟩ := List.forall_mem_cons.mp h
    rw [run_appendFrom_cons]
    obtain ⟨F, adds, item⟩ := first d
    obtain ⟨F', adds', grows⟩ :=
      ih others (step.run d).1.exit ((step.run d).2.linked exit (step.run d).1.entry .sigma)
    refine ⟨_, (adds.sigma exit _).trans adds', ?_⟩
    intro lo A entry spindle
    have longer := spindle.append item
      (C := A ++ (F.map Edge.arc ++ [(exit, (step.run d).1.entry)])) (by simp)
    simpa using grows longer

theorem spins_inSequence {steps : List (Step Fragment)} (h : SpinAll mode es steps) :
    Spins mode es (inSequence steps) := by
  cases steps with
  | nil => exact spins_chain []
  | cons step steps =>
    obtain ⟨first, others⟩ := List.forall_mem_cons.mp h
    intro d
    rw [run_inSequence_cons]
    obtain ⟨E, adds, item⟩ := first d
    obtain ⟨F, adds', grows⟩ := spun_appendFrom others (step.run d).1.exit (step.run d).2
    exact ⟨_, adds.trans adds', by simpa using grows item⟩

theorem spun_branches {steps : List (Step Fragment)} (h : SpinAll mode es steps)
    (entry exit : Nat) (d : Draft) :
    ∃ F, Adds mode es d ((branches entry exit steps).run d).2 F ∧
      ∀ {lo A}, Spun lo d.size A entry entry exit →
        Spun lo ((branches entry exit steps).run d).2.size (A ++ F.map Edge.arc) entry entry
          exit ∧
        (steps ≠ [] ∨ Way A entry exit → Way (A ++ F.map Edge.arc) entry exit) := by
  induction steps generalizing d with
  | nil =>
    refine ⟨[], .refl d, fun {_ A} spun => ?_⟩
    rw [List.map_nil, List.append_nil]
    exact ⟨spun, by simp⟩
  | cons step steps ih =>
    obtain ⟨first, others⟩ := List.forall_mem_cons.mp h
    rw [run_branches_cons]
    obtain ⟨F, adds, item⟩ := first d
    obtain ⟨F', adds', grows⟩ := ih others (((step.run d).2.linked entry (step.run d).1.entry
      .sigma).linked (step.run d).1.exit exit .sigma)
    refine ⟨_, ((adds.sigma entry _).sigma _ exit).trans adds', ?_⟩
    intro lo A spun
    obtain ⟨next, closed⟩ := spun.branch item (C := A ++ (F.map Edge.arc ++
      [(entry, (step.run d).1.entry), ((step.run d).1.exit, exit)])) (by simp)
    obtain ⟨whole, ways⟩ := grows next
    simp only [List.append_assoc, List.cons_append, List.nil_append, List.map_append,
      List.map_cons, Edge.arc_mk] at whole ways ⊢
    exact ⟨whole, fun _ => ways (.inr closed)⟩

theorem spins_sideBySide {steps : List (Step Fragment)} (h : SpinAll mode es steps)
    (ne : steps ≠ []) : Spins mode es (sideBySide steps) := by
  intro d
  rw [run_sideBySide]
  obtain ⟨F, adds, grows⟩ := spun_branches h d.size (d.size + 1) d.grown.grown
  obtain ⟨whole, ways⟩ := grows (Spindle.state d.size).opened
  exact ⟨F, (Adds.refl d).grown.grown.trans adds, whole.spindle (ways (.inl ne))⟩

section Repetition

variable {body : Step Fragment}

theorem spun_copies (h : Spins mode es body) (n tail : Nat) (last : Option Fragment) (d : Draft) :
    ∃ F, Adds mode es d ((copies body n tail last).run d).2 F ∧
      ∀ {lo A entry}, Spindle lo d.size A ⟨entry, tail⟩ →
        Spindle lo ((copies body n tail last).run d).2.size (A ++ F.map Edge.arc)
          ⟨entry, ((copies body n tail last).run d).1.1⟩ := by
  induction n generalizing tail last d with
  | zero => exact ⟨[], .refl d, fun {_ A _} spindle => (List.append_nil A).symm ▸ spindle⟩
  | succ n ih =>
    rw [run_copies_succ]
    obtain ⟨F, adds, copy⟩ := h d
    obtain ⟨F', adds', grows⟩ := ih (body.run d).1.exit (some (body.run d).1)
      ((body.run d).2.linked tail (body.run d).1.entry .sigma)
    refine ⟨_, (adds.sigma tail _).trans adds', ?_⟩
    intro lo A entry spindle
    have longer := spindle.append copy
      (C := A ++ (F.map Edge.arc ++ [(tail, (body.run d).1.entry)])) (by simp)
    simpa using grows longer

theorem spun_optionalCopies (h : Spins mode es body) (exit n tail : Nat) (d : Draft) :
    ∃ F, Adds mode es d ((optionalCopies body exit n tail).run d).2 F ∧
      ∀ {lo A entry}, Spun lo d.size A entry tail exit →
        Spun lo ((optionalCopies body exit n tail).run d).2.size (A ++ F.map Edge.arc) entry
          ((optionalCopies body exit n tail).run d).1 exit := by
  induction n generalizing tail d with
  | zero => exact ⟨[], .refl d, fun {_ A _} spun => (List.append_nil A).symm ▸ spun⟩
  | succ n ih =>
    rw [run_optionalCopies_succ]
    obtain ⟨F, adds, copy⟩ := h d
    obtain ⟨F', adds', grows⟩ := ih (body.run d).1.exit
      (((body.run d).2.linked tail (body.run d).1.entry .sigma).linked tail exit .sigma)
    refine ⟨_, ((adds.sigma tail _).sigma tail exit).trans adds', ?_⟩
    intro lo A entry spun
    have longer := spun.skip copy (C := A ++ (F.map Edge.arc ++
      [(tail, (body.run d).1.entry), (tail, exit)])) (by simp)
    simpa using grows longer

theorem spins_repeated_some (h : Spins mode es body) (min max : Nat) :
    Spins mode es (repeated body min (some max)) := by
  intro d
  rw [run_repeated_some]
  dsimp only
  obtain ⟨E, adds, grows⟩ := spun_copies h min d.size none d.grown
  generalize (copies body min d.size none).run d.grown = copied at adds grows ⊢
  obtain ⟨F, adds', grows'⟩ :=
    spun_optionalCopies h copied.2.size (max - min) copied.1.1 copied.2.grown
  generalize (optionalCopies body copied.2.size (max - min) copied.1.1).run copied.2.grown =
    optional at adds' grows' ⊢
  refine ⟨_, (((Adds.refl d).grown.trans adds).grown.trans adds').sigma _ _, ?_⟩
  exact (grows' (grows (.state d.size)).opened).finish (by simp [or_assoc])

theorem spins_repeated_zero (h : Spins mode es body) :
    Spins mode es (repeated body 0 none) := by
  intro d
  rw [run_repeated_zero]
  dsimp only
  obtain ⟨E, adds, copy⟩ := h d.grown.grown
  generalize body.run d.grown.grown = made at adds copy ⊢
  refine ⟨_, ((((((Adds.refl d).grown.grown.trans adds).sigma _ _).sigma _ _).sigma _ _).sigma _
    _), ?_⟩
  have entry := copy.entry
  have exit := copy.exit
  simp only [Draft.size_grown] at entry exit
  have spun := (Spindle.state d.size).opened.skip copy 
    (C := E.map Edge.arc ++ [(d.size, made.1.entry), (d.size, d.size + 1)]) (by simp)
  -- the way back does not lead to the beginning of the repetition, but to that of its body
  have looped := spun.arc (s := made.1.exit) (t := made.1.entry) (by omega) (by omega) (by omega)
    (by omega) fun _ => List.mem_append.trans (or_congr_right List.mem_singleton)
  exact looped.finish (by simp [or_assoc])

theorem spins_repeated_succ (h : Spins mode es body) (n : Nat) :
    Spins mode es (repeated body (n + 1) none) := by
  intro d
  rw [run_repeated_succ]
  dsimp only
  obtain ⟨E, adds, grows⟩ := spun_copies h n d.size none d.grown
  generalize (copies body n d.size none).run d.grown = before at adds grows ⊢
  obtain ⟨F, adds', copy⟩ := h before.2
  generalize body.run before.2 = made at adds' copy ⊢
  refine ⟨_, (((((Adds.refl d).grown.trans adds).trans adds').sigma _ _).grown.sigma _ _).sigma _ _,
    ?_⟩
  have first := grows (.state d.size)
  have entry : d.size < before.2.size := first.entry.2
  have bounds := And.intro copy.entry copy.exit
  have longer := first.append copy
    (C := E.map Edge.arc ++ (F.map Edge.arc ++ [(before.1.1, made.1.entry)])) (by simp)
  have ne : made.1.entry ≠ d.size := by omega
  have looped := longer.opened.arc (s := made.1.exit) (t := made.1.entry) (by omega) (by omega)
    (by omega) ne fun _ => List.mem_append.trans (or_congr_right List.mem_singleton)
  exact looped.finish (by simp [or_assoc])

theorem spins_repeated (h : Spins mode es body) (min : Nat) (max : Option Nat) :
    Spins mode es (repeated body min max) := by
  cases max with
  | some max => exact spins_repeated_some h min max
  | none =>
    cases min with
    | zero => exact spins_repeated_zero h
    | succ n => exact spins_repeated_succ h n

end Repetition

mutual

/-- An expression becomes a spindle. Alternatives need to have a branch, since there is no other way
from their entry to their exit. -/
theorem spins_ofExpr (mode : Mode) (sound : WellFormed es) :
    (e : Expr) → e.outline ⊆ es → Spins mode es (ofExpr mode e)
  | .charClass c, sub => spins_single (c := .set c.chars) ⟨c, sub (by simp [Expr.outline]), rfl⟩
  | .literal text, _ => spins_chain text
  | .sequence items, sub =>
    spins_inSequence (spins_ofExprs mode sound items fun e he => sub (by simp [Expr.outline, he]))
  | .alternatives items, sub => by
    rw [ofExpr]
    have parts := spins_ofExprs mode sound items fun e he => sub (by simp [Expr.outline, he])
    cases items with
    | nil =>
      have own := sound (.alternatives []) (sub (by simp [Expr.outline]))
      cases own
    | cons item items => exact spins_sideBySide parts (by simp [ofExprs])
  | .repetition body min max, sub =>
    spins_repeated (spins_ofExpr mode sound body fun e he => sub (by simp [Expr.outline, he]))
      min max
  | .lookahead body negated, sub =>
    spins_single (c := .check body mode negated) ⟨rfl, sub (by simp [Expr.outline])⟩

theorem spins_ofExprs (mode : Mode) (sound : WellFormed es) :
    (items : List Expr) → Expr.outlineAll items ⊆ es → SpinAll mode es (ofExprs mode items)
  | [], _ => by simp [ofExprs, SpinAll]
  | e :: rest, sub => by
    rw [ofExprs, SpinAll, List.forall_mem_cons]
    rw [Expr.outlineAll] at sub
    exact ⟨spins_ofExpr mode sound e fun _ he => sub (List.mem_append_left _ he),
      spins_ofExprs mode sound rest fun _ he => sub (List.mem_append_right _ he)⟩

end

end Fragment

end PatternAutomata
