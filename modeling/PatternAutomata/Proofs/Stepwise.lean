import PatternAutomata.Proofs.Additions
import PatternAutomata.Proofs.Prepared

/-!
# Preparation step by step

The transforms make their results by changes that may fail, one after another: the removal of sigma
transitions and the minimization first add all states and then treat them one by one, and the
subset construction adds a state when an edge first leads to it. No change ever fails, and the
changes come to what `removeEpsilon`, `determinize` and `minimize` build as a whole
(`prepareStepwise_eq`). So what is prepared has a history again (`hasHistory_prepare`).
-/
namespace PatternAutomata.Graph

section
variable {ν : Type} [DecidableEq ν]

theorem HasHistory.perform {g g' : Graph ν} {es : List (Edit ν)} (h : g.HasHistory)
    (ok : g.perform es = .ok g') : g'.HasHistory := by
  induction es generalizing g with
  | nil =>
    cases ok
    exact h
  | cons e es ih =>
    rw [Graph.perform, List.foldlM_cons] at ok
    obtain ⟨next, step, rest⟩ := bind_eq_ok.mp ok
    exact ih (h.edit step) rest

/-- A new automaton, made by the additions that are told from the given one and its initial
state. -/
def remake (tag : Nat) (additions : Graph ν → Nat → List (Addition ν)) (g : Graph ν) :
    Except Error (Graph ν) :=
  match g.initial with
  | none => .error .missingInitialState
  | some i => (empty tag).perform ((additions g i).map (Addition.edit tag))

/-- A state is told that it accepts, if it does. -/
def markIf (accepts : Bool) (s : Nat) : List (Addition ν) :=
  if accepts then [.accepting s] else []

end

variable {ν : Type} [DecidableEq ν] [Hashable ν]

/-! ### What the transforms add -/

/-- The edges that a state takes over from a member of its closure. -/
def edgesFrom (g : Graph ν) (places : Numbering Nat) (s m : Nat) : List (Edge ν) :=
  ((g.outgoing m).filter fun t => !t.condition.isSigma).filterMap fun t =>
    rename? places ⟨s, t.target, t.condition⟩

/-- What a state gets from the members of the closure of the state that it stands for. -/
def takenOver (g : Graph ν) (places : Numbering Nat) (p : Nat × Nat) : List (Addition ν) :=
  (g.closure p.1).flatMap fun m =>
    markIf (g.isAccepting m) p.2 ++ (g.edgesFrom places p.1 m).map .edgeOnce

def sigmaRemoval (g : Graph ν) (initial : Nat) : List (Addition ν) :=
  let kept := g.anchors initial
  let places := Numbering.ofList kept
  List.replicate kept.length .state ++ kept.zipIdx.flatMap (g.takenOver places) ++
    (places.place? initial).toList.map .initial

/-- The states that edges lead to are added before the edges, if their numbers are new. -/
def discoveries (count : Nat) : List (Edge ν) → List (Addition ν)
  | [] => []
  | e :: rest =>
    if e.target < count then .edge e :: discoveries count rest
    else .state :: .edge e :: discoveries (count + 1) rest

/-- What is added while nodes are expanded from a given one on. -/
def expansions (g : Graph ν) : (fuel next : Nat) → Subsets ν → List (Addition ν)
  | 0, _, _ => []
  | fuel + 1, next, b =>
    match b.nodes.keys[next]? with
    | none => []
    | some node =>
      let b' := g.expand b next node
      markIf (node.group.any g.isAccepting) next ++
        discoveries b.nodes.size (b'.edges.toList.drop b.edges.size) ++
          g.expansions fuel (next + 1) b'

def determination (g : Graph ν) (initial : Nat) : List (Addition ν) :=
  .state :: .initial 0 :: g.expansions g.nodeBound 0 (.start initial)

/-- The silent edges of a block, taken from a state in it. -/
def silentEdges (g : Graph ν) (d : Division) (p : Nat × Nat) : List (Edge ν) :=
  ((g.outgoing p.1).filter fun t => !t.condition.isConsuming).map fun t =>
    ⟨p.2, d.block t.target, t.condition⟩

/-- The consuming edges of a block, one for each block that they lead to. -/
def consumingEdges (g : Graph ν) (d : Division) (p : Nat × Nat) : List (Edge ν) :=
  ((g.leaving .empty p.1).consumingTo d).map fun l => ⟨p.2, l.1, .ofSet l.2⟩

/-- What a block gets from a state in it. -/
def inherited (g : Graph ν) (d : Division) (p : Nat × Nat) : List (Addition ν) :=
  markIf (g.isAccepting p.1) p.2 ++ (g.silentEdges d p).map .edgeOnce ++
    (g.consumingEdges d p).map .edge

def minimization (g : Graph ν) (initial : Nat) : List (Addition ν) :=
  let d := g.division
  let chosen := d.representatives g.liveStates
  List.replicate chosen.length .state ++ chosen.zipIdx.flatMap (g.inherited d) ++
    [.initial (d.block initial)]

/-- The automaton prepared for a mode, with every change of the transforms made on its own. -/
def prepareStepwise (tag : Nat) (mode : Mode) (g : Graph ν) : Except Error (Graph ν) :=
  match mode with
  | .nfa => .ok g
  | .dfa => do (← g.remake tag sigmaRemoval).remake tag determination
  | .minimal => do
    (← (← g.remake tag sigmaRemoval).remake tag determination).remake tag minimization

/-! ### They add it up to what is built -/

open Sketch

theorem set_behind (done : List Bool) (b : Bool) (rest : List Bool) :
    (if b then (done ++ false :: rest).set done.length true else done ++ false :: rest) =
      done ++ b :: rest := by
  cases b with
  | false => rfl
  | true => simp

section
variable {α : Type} {accepts : α → Bool} {adds : α × Nat → List (Addition ν)}
  {more : List (Edge ν) → α × Nat → List (Edge ν)}

/-- What is added for one of a number of states: it may turn out to accept, and there are more
edges. -/
def Treats (n : Nat) (accepts : α → Bool) (adds : α × Nat → List (Addition ν))
    (more : List (Edge ν) → α × Nat → List (Edge ν)) (p : α × Nat) : Prop :=
  ∀ d : Sketch ν, d.accepting.length = n → Makes d (adds p)
    ⟨if accepts p.1 then d.accepting.set p.2 true else d.accepting, more d.edges p, d.initial⟩

omit [Hashable ν] in
/-- States that are there already are treated one by one. -/
theorem makes_each {n : Nat} (xs : List α) (done : List Bool) (edges : List (Edge ν))
    (count : done.length + xs.length = n)
    (each : ∀ p ∈ xs.zipIdx done.length, Treats n accepts adds more p) :
    Makes ⟨done ++ List.replicate xs.length false, edges, none⟩
      ((xs.zipIdx done.length).flatMap adds)
      ⟨done ++ xs.map accepts, (xs.zipIdx done.length).foldl more edges, none⟩ := by
  induction xs generalizing done edges with
  | nil => exact .nil
  | cons x xs ih =>
    rw [List.zipIdx_cons] at each ⊢
    obtain ⟨own, others⟩ := List.forall_mem_cons.mp each
    have first := own ⟨done ++ List.replicate (xs.length + 1) false, edges, none⟩ (by simpa)
    rw [List.replicate_succ, set_behind] at first
    have rest := ih (done ++ [accepts x]) (more edges (x, done.length))
      (by simp only [List.length_append, List.length_cons, List.length_nil] at count ⊢; omega)
      (by simpa using others)
    simp only [List.length_append, List.length_singleton, List.append_assoc,
      List.singleton_append] at rest
    exact first.append rest

omit [Hashable ν] in
/-- All states are added first and treated one by one then. -/
theorem makes_all (xs : List α) (accepts : α → Bool) (adds : α × Nat → List (Addition ν))
    (more : List (Edge ν) → α × Nat → List (Edge ν))
    (each : ∀ p ∈ xs.zipIdx, Treats xs.length accepts adds more p) :
    Makes nothing (List.replicate xs.length .state ++ xs.zipIdx.flatMap adds)
      ⟨xs.map accepts, xs.zipIdx.foldl more [], none⟩ :=
  (makes_states nothing xs.length).append
    (makes_each xs [] [] (Nat.zero_add _) each)

end

section
variable {g : Graph ν} {d : Sketch ν}

omit [Hashable ν] in
/-- A state that several others speak for accepts if one of them does. -/
theorem makes_gathered {α : Type} {accepts : α → Bool} {edgesOf : α → List (Edge ν)} {p : Nat}
    (lt : p < d.accepting.length) (xs : List α)
    (ends : ∀ x ∈ xs, Joins d.accepting.length (edgesOf x)) :
    Makes d (xs.flatMap fun x => markIf (accepts x) p ++ (edgesOf x).map .edgeOnce)
      ⟨if xs.any accepts then d.accepting.set p true else d.accepting,
        (xs.flatMap edgesOf).foldl includeEdge d.edges, d.initial⟩ := by
  induction xs generalizing d with
  | nil => exact .nil
  | cons x xs ih =>
    obtain ⟨own, others⟩ := List.forall_mem_cons.mp ends
    have marked := makes_accepting lt (accepts x)
    have size := length_marked d.accepting p (accepts x)
    have linked := makes_edgesOnce (d := ⟨_, d.edges, d.initial⟩) (size ▸ own)
    have rest := ih (d := ⟨_, (edgesOf x).foldl includeEdge d.edges, d.initial⟩) (size ▸ lt)
      (size ▸ others)
    have either : (if xs.any accepts then
        (if accepts x then d.accepting.set p true else d.accepting).set p true
          else if accepts x then d.accepting.set p true else d.accepting) =
        if (x :: xs).any accepts then d.accepting.set p true else d.accepting := by
      cases hx : accepts x <;> cases hxs : xs.any accepts <;> simp [hx, hxs]
    rw [List.flatMap_cons, List.flatMap_cons, List.foldl_append, ← either]
    exact (marked.append linked).append rest

end

section
variable {g : Graph ν} {i : Nat}

omit [DecidableEq ν] [Hashable ν] in
theorem anchorEdges_eq : g.anchorEdges i = (g.anchors i).zipIdx.flatMap fun p =>
    (g.closure p.1).flatMap (g.edgesFrom (.ofList (g.anchors i)) p.1) := by
  have own (s : Nat) : ((g.closed s).leaving.filterMap fun t =>
      rename? (.ofList (g.anchors i)) ⟨s, t.target, t.condition⟩) =
        (g.closure s).flatMap (g.edgesFrom (.ofList (g.anchors i)) s) := List.filterMap_flatMap
  calc g.anchorEdges i
    _ = (g.anchors i).flatMap fun s =>
        (g.closure s).flatMap (g.edgesFrom (.ofList (g.anchors i)) s) := by
      simp only [anchorEdges, own]
    _ = ((g.anchors i).zipIdx.map Prod.fst).flatMap fun s =>
        (g.closure s).flatMap (g.edgesFrom (.ofList (g.anchors i)) s) :=
      congrArg (List.flatMap _) (List.zipIdx_map_fst 0 (g.anchors i)).symm
    _ = _ := List.flatMap_map ..

theorem makes_sigmaRemoval (g : Graph ν) (i : Nat) : Makes nothing (g.sigmaRemoval i)
    ⟨(g.anchors i).map fun s => (g.closed s).accepting, distinct (g.anchorEdges i),
      (Numbering.ofList (g.anchors i)).place? i⟩ := by
  have all := makes_all (g.anchors i) (fun s => (g.closed s).accepting)
    (g.takenOver (.ofList (g.anchors i)))
    (fun edges p => ((g.closure p.1).flatMap
      (g.edgesFrom (.ofList (g.anchors i)) p.1)).foldl includeEdge edges)
    fun p hp d size => ?_
  · rw [← List.foldl_flatMap, ← anchorEdges_eq, foldl_includeEdge fun _ _ => List.not_mem_nil]
      at all
    refine all.append (makes_initial rfl fun p hp => ?_)
    rw [List.length_map]
    exact lt_anchors hp
  · have lt : p.2 < d.accepting.length := size ▸ List.snd_lt_of_mem_zipIdx hp
    refine makes_gathered lt (g.closure p.1) fun m _ e he => ?_
    obtain ⟨t, -, renamed⟩ := List.mem_filterMap.mp he
    obtain ⟨source, target, -⟩ := rename?_eq_some_iff.mp renamed
    rw [size]
    exact ⟨lt_anchors source, lt_anchors target⟩

theorem remake_sigmaRemoval (tag : Nat) (g : Graph ν) :
    g.remake tag sigmaRemoval = g.removeEpsilon tag := by
  cases start : g.initial with
  | none => simp only [remake, removeEpsilon, start]
  | some i =>
    rw [removeEpsilon_eq tag start]
    simp only [remake, start]
    exact perform_of_makes (makes_sigmaRemoval g i) tag

/-! ### Minimization -/

/-- What is added for one block after another, if each edge belongs to the block it is added
for. -/
theorem foldl_blocks {α : Type} {silent consuming : α × Nat → List (Edge ν)} (xs : List α)
    {next : Nat} {edges : List (Edge ν)} (old : ∀ e ∈ edges, e.source < next)
    (own : ∀ p, ∀ e ∈ silent p ++ consuming p, e.source = p.2) :
    (xs.zipIdx next).foldl (fun edges p => (silent p).foldl includeEdge edges ++ consuming p)
        edges =
      edges ++ (xs.zipIdx next).flatMap fun p => distinct (silent p) ++ consuming p := by
  induction xs generalizing next edges with
  | nil => exact (List.append_nil edges).symm
  | cons x xs ih =>
    have new (e : Edge ν) (he : e ∈ silent (x, next)) : e ∉ edges := fun mem =>
      absurd (own (x, next) e (List.mem_append_left _ he)) (Nat.ne_of_lt (old e mem))
    rw [List.zipIdx_cons, List.foldl_cons, foldl_includeEdge new, ih, List.flatMap_cons,
      List.append_assoc, List.append_assoc, List.append_assoc]
    intro e he
    rcases List.mem_append.mp he with he | he
    · rcases List.mem_append.mp he with he | he
      · exact Nat.lt_succ_of_lt (old e he)
      · exact (own (x, next) e (List.mem_append_left _ (mem_distinct.mp he))).symm ▸
          Nat.lt_succ_self next
    · exact (own (x, next) e (List.mem_append_right _ he)).symm ▸ Nat.lt_succ_self next

theorem mem_blockEdges_of_added {d : Division} {p : Nat × Nat} {e : Edge ν}
    (he : e ∈ g.silentEdges d p ++ g.consumingEdges d p) : e ∈ g.blockEdges d p.2 p.1 := by
  rw [blockEdges, List.mem_append, mem_distinct]
  exact List.mem_append.mp he

theorem makes_minimization {m : Graph ν} (h : Quotient g m i g.division) :
    Makes nothing (g.minimization i)
      ⟨(g.division.representatives g.liveStates).map g.isAccepting,
        (g.division.representatives g.liveStates).zipIdx.flatMap fun p =>
          g.blockEdges g.division p.2 p.1,
        some (g.division.block i)⟩ := by
  have all := makes_all (g.division.representatives g.liveStates) g.isAccepting
    (g.inherited g.division)
    (fun edges p => (g.silentEdges g.division p).foldl includeEdge edges ++
      g.consumingEdges g.division p)
    fun p hp d size => ?_
  · rw [foldl_blocks _ (fun _ he => absurd he List.not_mem_nil) fun p e he =>
      source_of_mem_blockEdges p e (mem_blockEdges_of_added he), List.nil_append] at all
    refine all.append (.cons ?_ .nil)
    rw [List.length_map, h.length_representatives]
    exact h.block_lt h.start
  · have ends : Joins d.accepting.length
        (g.silentEdges g.division p ++ g.consumingEdges g.division p) := by
      intro e he
      have joins := h.joins
      rw [List.length_map] at joins
      rw [size]
      exact joins e (List.mem_flatMap.mpr ⟨p, hp, mem_blockEdges_of_added he⟩)
    obtain ⟨silent, consuming⟩ := List.forall_mem_append.mp ends
    have length := length_marked d.accepting p.2 (g.isAccepting p.1)
    have marked := makes_accepting (size ▸ List.snd_lt_of_mem_zipIdx hp) (g.isAccepting p.1)
    exact (marked.append (makes_edgesOnce (length ▸ silent))).append
      (makes_edges (length ▸ consuming))

theorem remake_minimization (hg : g.Intact) (tag : Nat) :
    g.remake tag minimization = g.minimize tag := by
  cases start : g.initial with
  | none => simp only [remake, minimize, start]
  | some i =>
    obtain ⟨m, -, quotient⟩ := minimize_spec hg start tag
    simp only [remake, minimize, start]
    exact perform_of_makes (makes_minimization quotient) tag

/-! ### The subset construction -/

omit [DecidableEq ν] [Hashable ν] in
/-- The state of a node is added in front of an edge to it, if the node has just been numbered. -/
theorem discoveries_cons (N : Numbering Node) (node : Node) {e : Edge ν}
    (target : e.target = (N.number node).2) (es : List (Edge ν)) :
    discoveries N.size (e :: es) = List.replicate ((N.number node).1.size - N.size) .state ++
      .edge e :: discoveries (N.number node).1.size es := by
  rw [discoveries, target]
  cases found : N.place? node with
  | some j =>
    rw [Numbering.number_of_place? found, if_pos (Numbering.place?_lt found), Nat.sub_self]
    rfl
  | none =>
    obtain ⟨keys, last⟩ := Numbering.number_of_new found
    have more : (N.number node).1.size = N.size + 1 := by
      have length := congrArg List.length keys
      rwa [Array.length_toList, List.length_append, Array.length_toList] at length
    rw [last, if_neg (Nat.lt_irrefl N.size), more, Nat.add_sub_cancel_left]
    rfl

omit [Hashable ν] in
/-- The states that leaves lead to are added when they are met first. -/
theorem makes_discoveries {N M : Numbering Node} {source : Nat}
    (leaves : List (Condition ν × Node)) {d : Sketch ν} (size : d.accepting.length = N.size)
    (lt : source < N.size) (known : (withLeaves N leaves).Extends M) :
    Makes d (discoveries N.size (leaves.map (edgeTo M source)))
      ⟨d.accepting ++ List.replicate ((withLeaves N leaves).size - N.size) false,
        d.edges ++ leaves.map (edgeTo M source), d.initial⟩ := by
  induction leaves generalizing N d with
  | nil =>
    have none : (withLeaves N ([] : List (Condition ν × Node))).size - N.size = 0 :=
      Nat.sub_self N.size
    rw [none, List.replicate_zero, List.append_nil, List.map_nil, List.append_nil]
    exact .nil
  | cons l rest ih =>
    have first : withLeaves N (l :: rest) = withLeaves (N.number l.2).1 rest := rfl
    rw [first] at known ⊢
    have grown : (N.number l.2).1.Extends (withLeaves (N.number l.2).1 rest) := extends_withLeaves
    have place := Numbering.place?_number N l.2
    have target : (edgeTo M source l).target = (N.number l.2).2 := by
      rw [edgeTo, known _ _ (grown _ _ place)]
      rfl
    have le := (Numbering.extends_number N l.2).size_le
    have le' := grown.size_le
    have states := makes_states d ((N.number l.2).1.size - N.size)
    have size' : (d.accepting ++ List.replicate ((N.number l.2).1.size - N.size) false).length =
        (N.number l.2).1.size := by
      rw [List.length_append, List.length_replicate, size, Nat.add_sub_cancel' le]
    have others := ih (d := ⟨_, d.edges ++ [edgeTo M source l], d.initial⟩) size'
      (Nat.lt_of_lt_of_le lt le) known
    have count : (withLeaves (N.number l.2).1 rest).size - N.size = (N.number l.2).1.size - N.size +
        ((withLeaves (N.number l.2).1 rest).size - (N.number l.2).1.size) := by omega
    simp only [List.append_assoc, List.singleton_append] at others
    rw [List.map_cons, discoveries_cons N l.2 target, count, ← List.replicate_append_replicate]
    refine states.append (.cons ⟨?_, ?_⟩ others)
    · exact size'.symm ▸ Nat.lt_of_lt_of_le lt le
    · exact size'.symm ▸ target.symm ▸ Numbering.place?_lt place

/-- An expansion tells whether the state of its node accepts, and adds the edges of the node. -/
theorem makes_expansion (hg : g.Intact) {b : Subsets ν} {told : List Bool} {node : Node}
    (initial : Option Nat) (here : b.nodes.keys[told.length]? = some node)
    (live : ∀ s ∈ node.group, g.IsLive s) :
    let b' := g.expand b told.length node
    Makes ⟨told ++ List.replicate (b.nodes.size - told.length) false, b.edges.toList, initial⟩
      (markIf (node.group.any g.isAccepting) told.length ++
        discoveries b.nodes.size (b'.edges.toList.drop b.edges.size))
      ⟨told ++ node.group.any g.isAccepting ::
        List.replicate (b'.nodes.size - (told.length + 1)) false, b'.edges.toList, initial⟩ := by
  intro b'
  have step := expand_spec hg live (Numbering.Extends.refl b'.checks)
  have edges := step.linked.edges b'.nodes (.refl _)
  have lt : told.length < b.nodes.size := (Array.getElem?_eq_some_iff.mp here).1
  have le : b.nodes.size ≤ b'.nodes.size := step.linked.extends_nodes.size_le
  have now : b.nodes.size - told.length = b.nodes.size - (told.length + 1) + 1 := by omega
  have later : b'.nodes.size - (told.length + 1) =
      b.nodes.size - (told.length + 1) + (b'.nodes.size - b.nodes.size) := by omega
  have marked := makes_accepting (s := told.length) (d := ⟨told ++ List.replicate
    (b.nodes.size - told.length) false, b.edges.toList, initial⟩) (by simp; omega)
      (node.group.any g.isAccepting)
  rw [now, List.replicate_succ, set_behind] at marked
  have linked := makes_discoveries (N := b.nodes) (M := b'.nodes)
    (g.leavesOf b'.checks node) (d := ⟨told ++ node.group.any g.isAccepting ::
      List.replicate (b.nodes.size - (told.length + 1)) false, b.edges.toList, initial⟩)
    (by simp; omega) lt (by rw [← step.linked.nodes]; exact .refl _)
  rw [← step.linked.nodes, List.append_assoc, List.cons_append,
    List.replicate_append_replicate, ← later] at linked
  rw [now, List.replicate_succ, edges, ← Array.length_toList, List.drop_left]
  exact marked.append linked

/-- All nodes are expanded in the order of their numbers, at most `fuel` of them. -/
theorem makes_expansions (hg : g.Intact) (fuel : Nat) {b : Subsets ν} (told : List Bool)
    (initial : Option Nat) (le : told.length ≤ b.nodes.size)
    (fits : ∀ node ∈ b.nodes.keys.toList, g.Fits node) (known : g.Known b.checks) :
    let b' := g.expandFrom fuel told.length b
    let new := b'.nodes.keys.toList.drop told.length
    Makes ⟨told ++ List.replicate (b.nodes.size - told.length) false, b.edges.toList, initial⟩
      (g.expansions fuel told.length b)
      ⟨told ++ (new.take fuel).map (fun node => node.group.any g.isAccepting) ++
        List.replicate (new.length - fuel) false, b'.edges.toList, initial⟩ := by
  induction fuel generalizing b told with
  | zero =>
    intro b' new
    have length : new.length = b.nodes.size - told.length := by
      rw [List.length_drop, Array.length_toList]
      rfl
    rw [List.take_zero, List.map_nil, List.append_nil, Nat.sub_zero, length]
    exact .nil
  | succ fuel ih =>
    rw [expandFrom, expansions]
    cases here : b.nodes.keys[told.length]? with
    | none =>
      intro b' new
      have all : b.nodes.size ≤ told.length := Array.getElem?_eq_none_iff.mp here
      have none : new = [] := List.drop_eq_nil_of_le (by rwa [Array.length_toList])
      rw [none, Nat.sub_eq_zero_of_le all]
      simpa using Makes.nil
    | some node =>
      intro b' new
      have fit : g.Fits node := fits node (List.mem_of_getElem? (Array.getElem?_toList.trans here))
      obtain ⟨fits', known'⟩ := fits_expand hg told.length fit fits known
      have step := expand_spec hg fit.live
        (Numbering.Extends.refl (g.expand b told.length node).checks)
      have grown := step.linked.extends_nodes
      have lt : told.length + 1 ≤ (g.expand b told.length node).nodes.size :=
        (Array.getElem?_eq_some_iff.mp (grown.key here)).1
      obtain ⟨done, rest, -, -, run⟩ := expandFrom_spec hg fuel lt fits' known'
      have parts : new = node :: b'.nodes.keys.toList.drop (told.length + 1) :=
        Numbering.drop_keys ((grown.trans run.extends_nodes).key here)
      have first := makes_expansion hg initial here fit.live
      have others := ih (told ++ [node.group.any g.isAccepting]) (by simpa) fits' known'
      simp only [List.length_append, List.length_singleton, List.append_assoc,
        List.singleton_append] at others
      rw [parts, List.take_succ_cons, List.map_cons, List.length_cons, Nat.add_sub_add_right,
        List.append_assoc, List.cons_append]
      exact first.append others

theorem makes_determination (hg : g.Intact) (live : g.IsLive i) {b : Subsets ν}
    (ran : g.expandFrom g.nodeBound 0 (.start i) = b) : Makes nothing (g.determination i)
      ⟨b.nodes.keys.toList.map fun node => node.group.any g.isAccepting, b.edges.toList,
        some 0⟩ := by
  have run : Run g (.start i) b 0 b.nodes.keys.toList := ran ▸ expandAll_spec hg live
  have bound : b.nodes.keys.toList.length ≤ g.nodeBound :=
    length_le_nodeBound (Numbering.nodup_keys b.nodes) run.fits
  have one : (Subsets.start i : Subsets ν).nodes.size = 1 := congrArg List.length (keys_start i)
  have expanded := makes_expansions hg g.nodeBound [] (some 0) (Nat.zero_le _) (fits_start live)
    (known_start g i)
  simp only [List.length_nil, List.drop_zero, ran, List.take_of_length_le bound,
    Nat.sub_eq_zero_of_le bound, List.replicate_zero, List.append_nil, one] at expanded
  exact .cons trivial (.cons Nat.zero_lt_one expanded)

theorem remake_determination (hg : g.Intact) (tag : Nat) :
    g.remake tag determination = g.determinize tag := by
  cases start : g.initial with
  | none => simp only [remake, determinize, start]
  | some i =>
    simp only [remake, determinize, start]
    exact perform_of_makes (makes_determination hg (hg.initial_live i start) rfl) tag

end

/-- Preparing an automaton step by step comes to what is prepared as a whole. -/
theorem prepareStepwise_eq {g : Graph ν} (hg : g.Intact) (tag : Nat) (mode : Mode) :
    g.prepareStepwise tag mode = g.prepare tag mode := by
  cases start : g.initial with
  | none =>
    have failed : g.removeEpsilon tag = .error .missingInitialState := by
      rw [removeEpsilon, start]
    cases mode with
    | nfa => rfl
    | dfa | minimal =>
      simp only [prepareStepwise, prepare, remake_sigmaRemoval, failed]
      rfl
  | some i =>
    obtain ⟨h, free, without⟩ := removeEpsilon_spec hg start tag
    obtain ⟨j, start', -⟩ := without.start start
    obtain ⟨d, b, ok, det⟩ := determinize_spec without.intact start' tag
    have first : g.remake tag sigmaRemoval = .ok h := (remake_sigmaRemoval tag g).trans free
    have second : h.remake tag determination = .ok d :=
      (remake_determination without.intact tag).trans ok
    cases mode with
    | nfa => rfl
    | dfa =>
      simp only [prepareStepwise, prepare, first, free]
      exact second.trans ok.symm
    | minimal =>
      obtain ⟨m, least, -⟩ := minimize_spec det.intact_graph det.initial tag
      rw [prepare_minimal free ok least]
      simp only [prepareStepwise, first]
      change (do (← h.remake tag determination).remake tag minimization) = _
      rw [second]
      exact (remake_minimization det.intact_graph tag).trans least

omit [Hashable ν] in
/-- The result of a transform is the outcome of a history of changes. -/
theorem hasHistory_remake {g h : Graph ν} {tag : Nat}
    {additions : Graph ν → Nat → List (Addition ν)} (ok : g.remake tag additions = .ok h) :
    h.HasHistory := by
  rw [remake] at ok
  split at ok
  · cases ok
  · exact HasHistory.perform ⟨tag, [], rfl⟩ ok

/-- Preparation leads from automata with a history to such automata. -/
theorem hasHistory_prepare {g h : Graph ν} (hg : g.HasHistory) {tag : Nat} {mode : Mode}
    (ok : g.prepare tag mode = .ok h) : h.HasHistory := by
  rw [← prepareStepwise_eq hg.intact] at ok
  cases mode with
  | nfa =>
    cases ok
    exact hg
  | dfa =>
    obtain ⟨_, -, second⟩ := bind_eq_ok.mp ok
    exact hasHistory_remake second
  | minimal =>
    obtain ⟨_, -, rest⟩ := bind_eq_ok.mp ok
    obtain ⟨_, -, third⟩ := bind_eq_ok.mp rest
    exact hasHistory_remake third

end PatternAutomata.Graph
