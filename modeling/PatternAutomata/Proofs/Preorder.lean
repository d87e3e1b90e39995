import PatternAutomata.Proofs.Execution
import PatternAutomata.Proofs.Histories
import PatternAutomata.Proofs.Loops

/-!
# The order of a sigma closure

`Traverses` is the recursive depth-first traversal along sigma transitions: it marks a state and
then visits what its sigma transitions lead to, one after another, skipping what is marked.
`Crawl` finds the same states with a stack of pending states, on which a state may stand several
times and which marks a state when it is taken off. Both list the closure of a state, in the same
order (`closure_preorder`).
-/
namespace PatternAutomata.Graph

variable {ν : Type} {g : Graph ν}

/-- `g.Traverses marked states marked'`: visiting the states in turn, after those that are marked,
leaves `marked'`. The marked states are listed in the order in which they were marked. -/
inductive Traverses (g : Graph ν) : List Nat → List Nat → List Nat → Prop
  | done {marked : List Nat} : g.Traverses marked [] marked
  | skip {marked marked' states : List Nat} {s : Nat} (old : s ∈ marked)
    (rest : g.Traverses marked states marked') : g.Traverses marked (s :: states) marked'
  | visit {marked between marked' states : List Nat} {s : Nat} (new : s ∉ marked)
    (inner : g.Traverses (marked ++ [s]) (g.sigmaTargets s) between)
    (rest : g.Traverses between states marked') : g.Traverses marked (s :: states) marked'

namespace Traverses

variable {marked marked' : List Nat}

theorem unique {marked'' states : List Nat} (h : g.Traverses marked states marked')
    (h' : g.Traverses marked states marked'') : marked'' = marked' := by
  induction h generalizing marked'' with
  | done =>
    cases h'
    rfl
  | skip old _ ih =>
    cases h' with
    | skip _ rest => exact ih rest
    | visit new => exact absurd old new
  | visit new _ _ ihInner ihRest =>
    cases h' with
    | skip old => exact absurd old new
    | visit _ inner rest =>
      cases ihInner inner
      exact ihRest rest

/-- A traversal of several states is a traversal of the first ones, then one of the others. -/
theorem split {xs ys : List Nat} (h : g.Traverses marked (xs ++ ys) marked') :
    ∃ between, g.Traverses marked xs between ∧ g.Traverses between ys marked' := by
  induction xs generalizing marked with
  | nil => exact ⟨marked, .done, h⟩
  | cons x xs ih =>
    cases h with
    | skip old rest =>
      have ⟨between, first, last⟩ := ih rest
      exact ⟨between, .skip old first, last⟩
    | visit new inner rest =>
      have ⟨between, first, last⟩ := ih rest
      exact ⟨between, .visit new inner first, last⟩

end Traverses

/-- Live states lead to live states, those that are pending already among them. -/
theorem isLive_ahead (hg : g.Intact) {s : Nat} {pending : List Nat}
    (live : ∀ r ∈ s :: pending, g.IsLive r) : ∀ r ∈ g.sigmaTargets s ++ pending, g.IsLive r := by
  intro r hr
  rcases List.mem_append.mp hr with target | later
  · have ⟨t, out, _, same⟩ := mem_sigmaTargets.mp target
    exact same ▸ hg.isLive_target out
  · exact live r (List.mem_cons_of_mem s later)

/-- What the search from marked states on finds is what a traversal adds to them. -/
theorem traverses_closureFrom (hg : g.Intact) {seen : Marks g.states.size} {pending : List Nat}
    (live : ∀ s ∈ pending, g.IsLive s) {marked : List Nat}
    (same : ∀ i, seen.contains i = true ↔ i ∈ marked) :
    g.Traverses marked pending (marked ++ g.closureFrom seen pending) := by
  fun_induction closureFrom g seen pending generalizing marked with
  | case1 => simpa using Traverses.done
  | case2 seen s pending old ih =>
    obtain ⟨first, others⟩ := List.forall_mem_cons.mp live
    have known : s ∈ marked := (same s).mp (Marks.mark?_eq_none_iff.mp old first.lt)
    exact .skip known (ih others same)
  | case3 seen s pending seen' new ih =>
    have unknown : s ∉ marked := by
      intro known
      have free := (Marks.lt_of_mark? new).2
      rw [(same s).mpr known] at free
      cases free
    have grown (i : Nat) : seen'.contains i = true ↔ i ∈ marked ++ [s] := by
      rw [Marks.contains_iff_of_mark? new, same, List.mem_append, List.mem_singleton, or_comm]
    -- The search goes on with one list of pending states, the traversal with two.
    obtain ⟨between, inner, rest⟩ := (ih (isLive_ahead hg live) grown).split
    rw [List.append_assoc, List.singleton_append] at rest
    exact .visit unknown inner rest

/-- A search with a stack: the states that were taken off, the same in the order in which they were
found, and those still pending, the next one last. -/
structure Crawl where
  seen : Std.HashSet Nat
  order : Array Nat
  pending : Array Nat

def Crawl.start (s : Nat) : Crawl := ⟨∅, #[], #[s]⟩

/-- One round of the search. The targets of a state are pushed from the last to the first, so that
the first is explored first. -/
def crawl? (g : Graph ν) (c : Crawl) : Option Crawl :=
  match c.pending.back? with
  | none => none
  | some current =>
    if c.seen.contains current then
      some { c with pending := c.pending.pop }
    else
      some ⟨c.seen.insert current, c.order.push current,
        c.pending.pop ++ (g.sigmaTargets current).reverse⟩

/-- The search with a stack makes the visits of the search that takes the first state of a list. -/
theorem loops_crawl (hg : g.Intact) {seen : Marks g.states.size} {pending : List Nat}
    (live : ∀ s ∈ pending, g.IsLive s) {c : Crawl} (same : ∀ i, c.seen.contains i = seen.contains i)
    (stack : c.pending = pending.reverse.toArray) :
    ∃ trail c', Loops g.crawl? c trail c' ∧
      c'.order.toList = c.order.toList ++ g.closureFrom seen pending := by
  fun_induction closureFrom g seen pending generalizing c with
  | case1 => exact ⟨[], c, .stop (by simp [crawl?, stack]), by simp⟩
  | case2 seen s pending old ih =>
    obtain ⟨first, others⟩ := List.forall_mem_cons.mp live
    have known : c.seen.contains s = true :=
      (same s).trans (Marks.mark?_eq_none_iff.mp old first.lt)
    have popped : g.crawl? c = some { c with pending := pending.reverse.toArray } := by
      simp [crawl?, stack, known]
    obtain ⟨trail, c', run, found⟩ := ih others
      (c := { c with pending := pending.reverse.toArray }) same rfl
    exact ⟨c :: trail, c', .next popped run, found⟩
  | case3 seen s pending seen' new ih =>
    have unknown : c.seen.contains s = false := (same s).trans (Marks.lt_of_mark? new).2
    have pushed : g.crawl? c = some ⟨c.seen.insert s, c.order.push s,
        (g.sigmaTargets s ++ pending).reverse.toArray⟩ := by
      simp [crawl?, stack, unknown]
    have grown (i : Nat) : (c.seen.insert s).contains i = seen'.contains i := by
      rw [Std.HashSet.contains_insert, Marks.contains_of_mark? new, same]
    obtain ⟨trail, c', run, found⟩ :=
      ih (isLive_ahead hg live) (c := ⟨_, c.order.push s, _⟩) grown rfl
    exact ⟨c :: trail, c', .next pushed run, by simpa using found⟩

/-- The closure of a live state. The search with a stack comes to an end and lists it; each state
that sigma transitions lead to is listed once, and no other; and its order is that of the recursive
traversal, which is determined. -/
theorem closure_preorder {g : Automaton} (hg : g.HasHistory) {s : Nat} (hs : g.IsLive s) :
    (∃ trail c, Loops g.crawl? (.start s) trail c ∧ c.order.toList = g.closure s) ∧
      (g.closure s).Nodup ∧ (∀ m, m ∈ g.closure s ↔ g.SigmaReaches s m) ∧
      ∀ order, g.Traverses [] [s] order ↔ order = g.closure s := by
  have live : ∀ r ∈ [s], g.IsLive r := List.forall_mem_singleton.mpr hs
  have visited : g.Traverses [] [s] (g.closure s) :=
    traverses_closureFrom hg.intact live fun i => by simp [Marks.contains_empty]
  refine ⟨?_, nodup_closure g s, fun m => mem_closure hg.intact hs, fun order => ⟨?_, ?_⟩⟩
  · have unmarked (i : Nat) :
        (Crawl.start s).seen.contains i = (Marks.empty g.states.size).contains i :=
      Std.HashSet.contains_empty.trans (Marks.contains_empty i).symm
    obtain ⟨trail, c, run, found⟩ := loops_crawl hg.intact live unmarked rfl
    exact ⟨trail, c, run, found⟩
  · exact fun traversed => visited.unique traversed
  · exact fun same => same ▸ visited

/-- Sigma transitions lead around in a circle, and to two states from two others. A search that
marked states when it pushed them would find the last state before the third one. -/
def tangled : Automaton :=
  (Graph.empty 0).replay [.addState, .addState, .addState, .addState, .setInitial ⟨0, 0⟩,
    .addTransition ⟨0, 0⟩ ⟨0, 1⟩ .sigma, .addTransition ⟨0, 0⟩ ⟨0, 2⟩ .sigma,
    .addTransition ⟨0, 1⟩ ⟨0, 2⟩ .sigma, .addTransition ⟨0, 1⟩ ⟨0, 3⟩ .sigma,
    .addTransition ⟨0, 2⟩ ⟨0, 0⟩ .sigma, .addTransition ⟨0, 2⟩ ⟨0, 3⟩ .sigma]

theorem traverses_tangled : tangled.Traverses [] [0] [0, 1, 2, 3] := by
  have second : tangled.Traverses [0, 1, 2] [0, 3] [0, 1, 2, 3] :=
    .skip (by decide) (.visit (by decide) .done .done)
  have first : tangled.Traverses [0, 1] [2, 3] [0, 1, 2, 3] :=
    .visit (by decide) second (.skip (by decide) .done)
  exact .visit (by decide) (.visit (by decide) first (.skip (by decide) .done)) .done

theorem closure_preorder_tangled : tangled.HasHistory ∧ tangled.IsLive 0 ∧
    tangled.closure 0 = [0, 1, 2, 3] ∧
      ∃ trail c, Loops tangled.crawl? (.start 0) trail c ∧ c.order.toList = [0, 1, 2, 3] := by
  have history : tangled.HasHistory := ⟨0, _, rfl⟩
  have live : tangled.IsLive 0 := ⟨_, rfl, rfl⟩
  obtain ⟨⟨trail, c, run, found⟩, -, -, order⟩ := closure_preorder history live
  have listed := (order _).mp traverses_tangled
  exact ⟨history, live, listed.symm, trail, c, run, found.trans listed.symm⟩

end PatternAutomata.Graph
