import PatternAutomata.Proofs.Decisions
import PatternAutomata.Proofs.Loops
import PatternAutomata.Proofs.SigmaRemoval

/-!
# The rounds of the transforms

The subset construction expands the nodes of a queue, to whose end new nodes go (`Worklist`); the
refinement of a division goes on until a round leaves the number of blocks as it was
(`Refinement`). Both loops end on every automaton (`transforms_end`). Each node is expanded in one
round, and nodes are few, as a node decides no check twice; there are no more rounds of refinement
than states, as each but the last finds a new block.
-/
namespace PatternAutomata

/-- What a longer list numbers from a place on: the rest of the shorter list, then what is new. -/
theorem drop_zipIdx_of_prefix {α : Type} {xs ys : List α} (h : xs <+: ys) {n : Nat}
    (le : n ≤ xs.length) :
    ys.zipIdx.drop n = xs.zipIdx.drop n ++ ys.zipIdx.drop xs.length := by
  obtain ⟨zs, rfl⟩ := h
  have length : xs.zipIdx.length = xs.length := List.length_zipIdx
  rw [List.zipIdx_append, List.drop_append_of_le_length (length ▸ le), List.drop_left' length]

theorem map_eq_map_filterMap {α β : Type} {f : α → Option β} {xs : List α}
    (h : ∀ x ∈ xs, (f x).isSome) : xs.map f = (xs.filterMap f).map some := by
  induction xs with
  | nil => rfl
  | cons x xs ih =>
    obtain ⟨first, others⟩ := List.forall_mem_cons.mp h
    obtain ⟨y, hy⟩ := Option.isSome_iff_exists.mp first
    rw [List.map_cons, List.filterMap_cons_some hy, hy, ih others, List.map_cons]

namespace Graph

variable {ν : Type} [DecidableEq ν] [Hashable ν]

/-- The subset construction with the nodes that wait to be expanded, each with its number. -/
structure Worklist (ν : Type) [DecidableEq ν] [Hashable ν] where
  subsets : Subsets ν
  queue : List (Node × Nat)

def Worklist.start (initial : Nat) : Worklist ν := ⟨.start initial, [(⟨[initial], []⟩, 0)]⟩

/-- One round: the first node is taken off the queue and expanded. What is numbered on the way goes
to the end of the queue. -/
def expandNext? (g : Graph ν) (w : Worklist ν) : Option (Worklist ν) :=
  match w.queue with
  | [] => none
  | (node, source) :: waiting =>
    let subsets := g.expand w.subsets source node
    some ⟨subsets, waiting ++ subsets.nodes.keys.toList.zipIdx.drop w.subsets.nodes.size⟩

/-- The automaton that the construction amounts to. -/
def Worklist.result (w : Worklist ν) (tag : Nat) (g : Graph ν) : Graph ν :=
  build tag (w.subsets.nodes.keys.toList.map fun node => node.group.any g.isAccepting)
    w.subsets.edges.toList (some 0)

/-- The nodes before a number are expanded, those from it on are waiting. Every node fits the
automaton, and what it decides are checks that are numbered. -/
structure Worklist.Keeps (g : Graph ν) (w : Worklist ν) (next : Nat) : Prop where
  reached : next ≤ w.subsets.nodes.size
  queue : w.queue = w.subsets.nodes.keys.toList.zipIdx.drop next
  fits : ∀ node ∈ w.subsets.nodes.keys.toList, g.Fits node
  known : g.Known w.subsets.checks
  placed : ∀ node ∈ w.subsets.nodes.keys.toList, ∀ d ∈ node.decided, d.1 < w.subsets.checks.size

variable {g : Graph ν} {M : Checks ν} {node : Node} {w w' t : Worklist ν}
  {trail : List (Worklist ν)}
  {next i : Nat}

theorem expandNext?_eq_none : g.expandNext? w = none ↔ w.queue = [] := by
  unfold expandNext?
  cases w.queue with
  | nil => simp
  | cons p waiting => simp

/-- What a leaf decides is numbered, if what its node decides is. -/
theorem placed_leaf {l : Condition ν × Node} (placed : ∀ d ∈ node.decided, d.1 < M.size)
    (h : l ∈ g.leavesOf M node) : ∀ d ∈ l.2.decided, d.1 < M.size := by
  rcases leaf_cases h with ⟨rfl, _⟩ | ⟨i, _, k, found, place, rfl⟩ | ⟨_, a, _, rfl⟩
  · exact placed
  · intro d hd
    rcases mem_decide.mp hd with rfl | old
    · exact Numbering.place?_lt place
    · exact placed d old
  · intro d hd
    cases hd

theorem size_le_liveChecks (hg : g.Intact) (known : g.Known M) : M.size ≤ g.liveChecks.length := by
  have subset : M.keys.toList ⊆ g.liveChecks := fun k hk => (known k hk).mem_liveChecks hg
  have le := ((Numbering.nodup_keys M).subperm subset).length_le
  rw [Array.length_toList] at le
  exact le

namespace Worklist

theorem keeps_start (hi : g.IsLive i) : (start i : Worklist ν).Keeps g 0 := by
  have keys := keys_start (ν := ν) i
  refine ⟨Nat.zero_le _, ?_, fits_start hi, known_start g i, ?_⟩
  · change _ = (Subsets.start i : Subsets ν).nodes.keys.toList.zipIdx.drop 0
    rw [keys]
    rfl
  · change ∀ node ∈ (Subsets.start i : Subsets ν).nodes.keys.toList, _
    rw [keys, List.forall_mem_singleton]
    simp

namespace Keeps

/-- A round expands the next node and leaves the others as they are. -/
theorem step (hg : g.Intact) (k : w.Keeps g next) (h : g.expandNext? w = some w') :
    ∃ node, w.subsets.nodes.keys[next]? = some node ∧ w.queue.head? = some (node, next) ∧
      w'.subsets = g.expand w.subsets next node ∧
      w.subsets.nodes.Extends w'.subsets.nodes ∧ w'.Keeps g (next + 1) := by
  have head : w.queue.head? = w.subsets.nodes.keys[next]?.map (·, next) := by
    rw [k.queue, List.head?_drop, List.getElem?_zipIdx, Array.getElem?_toList, Nat.zero_add]
  have tail : w.queue.tail = w.subsets.nodes.keys.toList.zipIdx.drop (next + 1) := by
    rw [k.queue, List.tail_drop]
  unfold expandNext? at h
  split at h
  · cases h
  · next node source waiting queue =>
    cases h
    rw [queue] at head tail
    obtain ⟨_, key, same⟩ := Option.map_eq_some_iff.mp head.symm
    cases same
    have lt : next < w.subsets.nodes.size := (Array.getElem?_eq_some_iff.mp key).1
    have member := List.mem_of_getElem? (Array.getElem?_toList.trans key)
    have fit := k.fits node member
    have first := expand_spec hg fit.live (.refl (g.expand w.subsets next node).checks)
    have grown := first.linked.extends_nodes
    obtain ⟨fits, known⟩ := fits_expand hg next fit k.fits k.known
    refine ⟨node, key, by rw [queue]; rfl, rfl, grown, ?_, ?_, fits, known, ?_⟩
    · exact Nat.lt_of_lt_of_le lt grown.size_le
    · have all := drop_zipIdx_of_prefix grown.isPrefix (n := next + 1)
        (by rw [Array.length_toList]; exact lt)
      rw [Array.length_toList] at all
      rw [List.tail_cons] at tail
      exact tail ▸ all.symm
    · intro other hother d hd
      rw [first.linked.nodes] at hother
      have more := first.extends_checks.size_le
      rcases mem_withLeaves.mp hother with old | ⟨l, hl, rfl⟩
      · exact Nat.lt_of_lt_of_le (k.placed other old d hd) more
      · have placed : ∀ d ∈ node.decided, d.1 < (g.expand w.subsets next node).checks.size :=
          fun e he => Nat.lt_of_lt_of_le (k.placed node member e he) more
        exact placed_leaf placed hl d hd

theorem length_queue (k : w.Keeps g next) : w.queue.length = w.subsets.nodes.size - next := by
  rw [k.queue, List.length_drop, List.length_zipIdx, Array.length_toList]
  rfl

/-- There are no more nodes than groups of live states with outcomes of checks. -/
theorem size_le (hg : g.Intact) (k : w.Keeps g next) :
    w.subsets.nodes.size ≤ Nat.pow 2 g.stateCount * Nat.pow 3 g.liveChecks.length := by
  have rise : g.liveStates.Pairwise (· < ·) := List.pairwise_lt_range.filter _
  have bound := length_le_groups_outcomes (Numbering.nodup_keys w.subsets.nodes)
    (fun node hn => (k.fits node hn).group_sublist rise fun s => mem_liveStates.mpr)
    (fun node hn => mem_outcomes (k := g.liveChecks.length) (k.fits node hn).decided fun d hd =>
      Nat.lt_of_lt_of_le (k.placed node hn d hd) (size_le_liveChecks hg k.known))
  rw [Array.length_toList] at bound
  exact bound

/-- The nodes are taken off the queue in the order of their numbers. -/
theorem run (hg : g.Intact) (k : w.Keeps g next) (h : Loops g.expandNext? w trail t) :
    t.Keeps g (next + trail.length) ∧ w.subsets.nodes.Extends t.subsets.nodes ∧
      trail.map (·.queue.head?) = (t.subsets.nodes.keys.toList.zipIdx.drop next).map some := by
  induction h generalizing next with
  | stop last => exact ⟨k, .refl _, by rw [← k.queue, expandNext?_eq_none.mp last]; rfl⟩
  | @next w w' t trail first rest ih =>
    obtain ⟨node, key, head, -, grown, k'⟩ := k.step hg first
    obtain ⟨keeps, more, heads⟩ := ih k'
    have key' := (grown.trans more).key key
    have front : t.subsets.nodes.keys.toList.zipIdx.drop next =
        (node, next) :: t.subsets.nodes.keys.toList.zipIdx.drop (next + 1) := by
      have here : t.subsets.nodes.keys.toList.zipIdx[next]? = some (node, next) := by
        rw [List.getElem?_zipIdx, Array.getElem?_toList, key', Nat.zero_add]
        rfl
      rw [List.drop_eq_getElem?_toList_append, here]
      rfl
    refine ⟨?_, grown.trans more, ?_⟩
    · rw [List.length_cons, Nat.add_comm trail.length, ← Nat.add_assoc]
      exact keeps
    · rw [List.map_cons, head, heads, front, List.map_cons]

/-- The recursion of the construction comes to the end of the loop, if it may go on for as many
rounds. -/
theorem expandFrom_eq (hg : g.Intact) (k : w.Keeps g next) (h : Loops g.expandNext? w trail t)
    {fuel : Nat} (enough : trail.length ≤ fuel) : g.expandFrom fuel next w.subsets = t.subsets := by
  induction h generalizing next fuel with
  | @stop w last =>
    have none : w.subsets.nodes.keys[next]? = none := by
      have queue := k.queue
      rw [expandNext?_eq_none.mp last] at queue
      have le := List.drop_eq_nil_iff.mp queue.symm
      rw [List.length_zipIdx, Array.length_toList] at le
      exact Array.getElem?_eq_none le
    cases fuel with
    | zero => rfl
    | succ fuel => rw [expandFrom, none]
  | @next w w' t trail first _ ih =>
    obtain ⟨node, key, -, same, -, k'⟩ := k.step hg first
    cases fuel with
    | zero => cases enough
    | succ fuel =>
      have later := ih k' (Nat.le_of_succ_le_succ enough)
      rw [same] at later
      rw [expandFrom, key]
      exact later

/-- What a node decides are different checks. -/
theorem decides (hg : g.Intact) (k : w.Keeps g next) (hn : node ∈ w.subsets.nodes.keys.toList) :
    ∃ ks, node.decided.map (fun d => w.subsets.checks.keys[d.1]?) = ks.map some ∧ ks.Nodup ∧
      ks ⊆ g.liveChecks := by
  have once : (node.decided.map Prod.fst).Nodup :=
    (List.pairwise_map.mpr (k.fits node hn).decided).imp Nat.ne_of_lt
  have placed : ∀ n ∈ node.decided.map Prod.fst, n < w.subsets.checks.size :=
    List.forall_mem_map.mpr (k.placed node hn)
  refine ⟨(node.decided.map Prod.fst).filterMap (w.subsets.checks.keys[·]?), ?_, ?_, ?_⟩
  · rw [← map_eq_map_filterMap, List.map_map]
    · rfl
    · intro n hn
      rw [Array.getElem?_eq_getElem (placed n hn)]
      rfl
  · refine once.filterMap fun n m c hn hm => ?_
    rw [Option.mem_def, ← Numbering.place?_eq_some_iff] at hn hm
    exact Option.some.inj (hn.symm.trans hm)
  · intro c hc
    obtain ⟨n, -, hn⟩ := List.mem_filterMap.mp hc
    exact (k.known c (List.mem_of_getElem? (Array.getElem?_toList.trans hn))).mem_liveChecks hg

end Keeps

/-- The construction from a live state on comes to an end. -/
theorem exists_run (hg : g.Intact) (hi : g.IsLive i) :
    ∃ trail w, Loops g.expandNext? (.start i) trail w := by
  let bound := Nat.pow 2 g.stateCount * Nat.pow 3 g.liveChecks.length
  -- The number of the next node is the number of nodes without those in the queue.
  let left (w : Worklist ν) : Nat := bound + w.queue.length - w.subsets.nodes.size
  have steps (w w' : Worklist ν) (k : ∃ next, w.Keeps g next) (first : g.expandNext? w = some w') :
      (∃ next, w'.Keeps g next) ∧ left w' < left w := by
    obtain ⟨next, k⟩ := k
    obtain ⟨node, key, -, -, -, k'⟩ := k.step hg first
    refine ⟨⟨next + 1, k'⟩, ?_⟩
    have lt : next < w.subsets.nodes.size := (Array.getElem?_eq_some_iff.mp key).1
    have few : w.subsets.nodes.size ≤ bound := k.size_le hg
    have few' : w'.subsets.nodes.size ≤ bound := k'.size_le hg
    have reached := k'.reached
    have length := k.length_queue
    have length' := k'.length_queue
    simp only [left]
    omega
  obtain ⟨trail, w, run, -⟩ := exists_loops left steps (start i) ⟨0, keeps_start hi⟩
  exact ⟨trail, w, run⟩

end Worklist

omit [DecidableEq ν] [Hashable ν] in
theorem stateCount_build {tag : Nat} {accepting : List Bool} {edges : List (Edge ν)}
    {initial : Option Nat} : (build tag accepting edges initial).stateCount = accepting.length := by
  have states : (build tag accepting edges initial).liveStates = List.range accepting.length := by
    refine eq_of_rising (List.pairwise_lt_range.filter _) List.pairwise_lt_range fun s => ?_
    rw [mem_liveStates, isLive_build, List.mem_range]
  rw [stateCount, states, List.length_range]

/-- The automaton that `determinize` gives is what the loop ends with. -/
theorem Worklist.determinize_eq (hg : g.Intact) (initial : g.initial = some i)
    (h : Loops g.expandNext? (.start i) trail w) (tag : Nat) :
    g.determinize tag = .ok (w.result tag g) := by
  have start := keeps_start (hg.initial_live i initial)
  obtain ⟨keeps, -, heads⟩ := start.run hg h
  have rounds := congrArg List.length heads
  rw [List.length_map, List.length_map, List.drop_zero, List.length_zipIdx] at rounds
  have enough : trail.length ≤ g.nodeBound :=
    rounds ▸ length_le_nodeBound (Numbering.nodup_keys w.subsets.nodes) keeps.fits
  rw [determinize, initial, result, ← start.expandFrom_eq hg h enough]
  rfl

/-- The refinement of a division: the division of the last round, and whether that round left the
number of blocks as it was. -/
structure Refinement where
  division : Division
  settled : Bool

/-- Only acceptance tells states apart. -/
def unrefined (g : Graph ν) : Refinement :=
  ⟨.ofKeys g.states.size (g.liveStates.map fun s => (s, g.isAccepting s)), false⟩

/-- One round of the refinement. -/
def refineNext? (g : Graph ν) (r : Refinement) : Option Refinement :=
  if r.settled then
    none
  else
    let finer := r.division.refine g.states.size (g.liveStates.map (g.leaving g.silentConditions))
    some ⟨finer, finer.size == r.division.size⟩

namespace Refinement

variable {r r' : Refinement} {rounds : List Refinement}

/-- A round finds a new block or settles the division. -/
theorem step (hg : g.Intact) (ordered : r.division.Ordered g.liveStates)
    (h : g.refineNext? r = some r') : r'.division.Ordered g.liveStates ∧
      r.division.size ≤ r'.division.size ∧
        (r'.settled = false → r.division.size < r'.division.size) := by
  unfold refineNext? at h
  split at h
  · cases h
  · cases h
    have leads := leads_leaving hg g.silentConditions
    have once := nodup_liveStates g
    have next := Division.ordered_refine leads once (fun _ => lt_of_mem_liveStates) r.division
    have finer := Division.finer_refine leads once (fun _ => lt_of_mem_liveStates) r.division
    have le := (finer.size_le next ordered).1
    refine ⟨next, le, fun changed => ?_⟩
    exact Nat.lt_of_le_of_ne le (Ne.symm (beq_eq_false_iff_ne.mp changed))

/-- The recursion of the refinement comes to the end of the loop, if it may go on for as many
rounds. -/
theorem refineFrom_eq (h : Loops g.refineNext? r rounds r') (unsettled : r.settled = false)
    {fuel : Nat} (enough : rounds.length ≤ fuel) :
    r.division.refineFrom g.states.size (g.liveStates.map (g.leaving g.silentConditions)) fuel =
      r'.division := by
  induction h generalizing fuel with
  | stop last => simp [refineNext?, unsettled] at last
  | @next r s r' rounds first rest ih =>
    cases fuel with
    | zero => cases enough
    | succ fuel =>
      simp only [refineNext?, unsettled, Bool.false_eq_true, if_false, Option.some.injEq] at first
      subst first
      rw [Division.refineFrom]
      split
      · next same =>
        cases rest with
        | stop => rfl
        | next again => simp [refineNext?, same] at again
      · next changed =>
        exact ih (beq_eq_false_iff_ne.mpr changed) (Nat.le_of_succ_le_succ enough)

/-- The refinement of the states of an automaton that has some. -/
theorem exists_run (hg : g.Intact) (hi : g.IsLive i) :
    ∃ rounds r, Loops g.refineNext? g.unrefined rounds r ∧ r.division = g.division ∧
      rounds.length ≤ g.stateCount ∧
        (rounds ++ [r]).IsChain fun a b => a.division.size ≤ b.division.size := by
  have start : g.unrefined.division.Ordered g.liveStates := ordered_acceptance g
  have some : 0 < g.unrefined.division.size :=
    Nat.lt_of_le_of_lt (Nat.zero_le _) (start.block_lt (mem_liveStates.mpr hi))
  let left (r : Refinement) : Nat := if r.settled then 0 else g.stateCount + 1 - r.division.size
  have steps (r r' : Refinement) (ordered : r.division.Ordered g.liveStates)
      (first : g.refineNext? r = Option.some r') :
      r'.division.Ordered g.liveStates ∧ left r' < left r := by
    obtain ⟨ordered', -, found⟩ := step hg ordered first
    have few : r.division.size ≤ g.stateCount := ordered.size_le
    have unsettled : r.settled = false := by
      cases settled : r.settled with
      | false => rfl
      | true => simp [refineNext?, settled] at first
    refine ⟨ordered', ?_⟩
    simp only [left, unsettled]
    cases settled : r'.settled with
    | false =>
      have more := found settled
      simp only [Bool.false_eq_true, if_false]
      omega
    | true =>
      simp only [if_true, Bool.false_eq_true, if_false]
      omega
  obtain ⟨rounds, r, run, short, -⟩ := exists_loops left steps g.unrefined start
  have enough : rounds.length ≤ g.stateCount := by
    have bound : left g.unrefined = g.stateCount + 1 - g.unrefined.division.size := rfl
    omega
  have grows (a b : Refinement) (ordered : a.division.Ordered g.liveStates)
      (first : g.refineNext? a = Option.some b) :
      b.division.Ordered g.liveStates ∧ a.division.size ≤ b.division.size := by
    obtain ⟨ordered', le, -⟩ := step hg ordered first
    exact ⟨ordered', le⟩
  exact ⟨rounds, r, run, (refineFrom_eq run rfl enough).symm, enough, run.isChain grows start⟩

end Refinement

end Graph

/-- The loops of the transforms end on every automaton with an initial state. The subset
construction ends with an empty queue; the nodes are taken off the queue, and expanded, once each
and in the order of their numbers; each decides different checks, so that there are no more nodes
than groups of live states with outcomes of the checks; and they make up the states of the result.
The refinement ends after at most as many rounds as there are live states, and no round leaves
fewer blocks than there were. -/
theorem Graph.transforms_end {g : Automaton} (hg : g.HasHistory) {i : Nat}
    (initial : g.initial = some i) :
    (∃ trail w, Loops g.expandNext? (.start i) trail w ∧ w.queue = [] ∧
      (let nodes := w.subsets.nodes.keys.toList
      nodes.Nodup ∧ trail.map (·.queue.head?) = nodes.zipIdx.map some ∧
        (∀ node ∈ nodes, ∃ ks, node.decided.map (fun d => w.subsets.checks.keys[d.1]?) =
          ks.map some ∧ ks.Nodup ∧ ks ⊆ g.liveChecks) ∧
        ∀ tag, g.determinize tag = .ok (w.result tag g) ∧
          (w.result tag g).stateCount = nodes.length ∧
            nodes.length ≤ Nat.pow 2 g.stateCount * Nat.pow 3 g.liveChecks.length)) ∧
    ∃ rounds r, Loops g.refineNext? g.unrefined rounds r ∧ r.division = g.division ∧
      rounds.length ≤ g.stateCount ∧
        (rounds ++ [r]).IsChain fun a b => a.division.size ≤ b.division.size := by
  have live := hg.intact.initial_live i initial
  obtain ⟨trail, w, run⟩ := Worklist.exists_run hg.intact live
  obtain ⟨keeps, -, heads⟩ := (Worklist.keeps_start live).run hg.intact run
  refine ⟨⟨trail, w, run, expandNext?_eq_none.mp run.step_eq_none, Numbering.nodup_keys _, heads,
    fun node hn => keeps.decides hg.intact hn, fun tag => ⟨?_, ?_, ?_⟩⟩, ?_⟩
  · exact Worklist.determinize_eq hg.intact initial run tag
  · rw [Worklist.result, stateCount_build, List.length_map]
  · exact (Array.length_toList ..).trans_le (keeps.size_le hg.intact)
  · exact Refinement.exists_run hg.intact live

theorem Graph.liveChecks_entangled : entangled.liveChecks = [(.of forked, .dfa)] := by
  have checks : (entangled.liveTransitions.filterMap fun t => t.1.condition.check?) =
      [(.of forked, .dfa)] ++ [(.of forked, .dfa)] := rfl
  rw [liveChecks, checks, distinct_append, if_pos (List.mem_singleton.mpr rfl)]
  exact distinct_eq_self (List.nodup_singleton _)

/-- The construction goes on from the first node by the sigma transition, and from there by both
outcomes of the check. -/
theorem Graph.four_le_stateCount_entangled {d : Automaton} {tag : Nat}
    (ok : entangled.determinize tag = .ok d) : 4 ≤ d.stateCount := by
  obtain ⟨d, b, ok', det⟩ := determinize_spec hasHistory_entangled.intact rfl tag
  cases ok.symm.trans ok'
  let start : Node := ⟨[0], []⟩
  let next : Node := ⟨entangled.groupIn b.checks [] [1], []⟩
  have inside : 1 ∈ next.group := mem_groupIn.mpr ⟨by decide, 1, List.mem_singleton.mpr rfl, .refl⟩
  have sigma : ((.sigma, next) : Condition Nested × Node) ∈ entangled.leavesOf b.checks start :=
    List.mem_append_left _ (List.mem_singleton.mpr rfl)
  have met : next ∈ b.nodes.keys.toList := det.leaf_mem det.mem_start sigma
  have out : (⟨⟨1, 2, .check (.of forked) .dfa false⟩, false⟩ : Transition Nested) ∈
      entangled.outgoing 1 := List.mem_of_getElem? (rfl : (entangled.outgoing 1)[1]? = some _)
  obtain ⟨n, k, -, leaf⟩ := exists_outcomes (det.undecided_of_check met rfl inside out rfl)
  let outcome (found : Bool) : Node := (entangled.outcomeOf b.checks next n k found).2
  have grown : start ≠ next := fun same => by
    have only : 1 ∈ start.group := same ▸ inside
    cases List.mem_singleton.mp only
  have decided (node : Node) (none : node.decided = []) (found : Bool) : node ≠ outcome found :=
    fun same => by cases none.symm.trans (congrArg Node.decided same)
  have sides : outcome true ≠ outcome false := fun same => by cases congrArg Node.decided same
  have once : [start, next, outcome true, outcome false].Nodup := by
    simp [grown, sides, decided start rfl, decided next rfl]
  have all : [start, next, outcome true, outcome false] ⊆ b.nodes.keys.toList :=
    List.cons_subset.mpr ⟨det.mem_start, List.cons_subset.mpr ⟨met, List.cons_subset.mpr
      ⟨det.leaf_mem met (leaf true), List.cons_subset.mpr
        ⟨det.leaf_mem met (leaf false), List.nil_subset _⟩⟩⟩⟩
  obtain ⟨tag', rfl⟩ := det.graph
  rw [stateCount_build, List.length_map]
  exact (once.subperm all).length_le

theorem Graph.transforms_end_entangled : entangled.HasHistory ∧ entangled.initial = some 0 ∧
    (∃ trail w, Loops entangled.expandNext? (.start 0) trail w ∧
      entangled.determinize 2 = .ok (w.result 2 entangled) ∧
        4 ≤ trail.length ∧ trail.length ≤ 24) ∧
      ∃ rounds r, Loops entangled.refineNext? entangled.unrefined rounds r ∧
        rounds.length ≤ 3 := by
  obtain ⟨⟨trail, w, run, -, -, heads, -, result⟩, rounds, r, run', -, few, -⟩ :=
    transforms_end hasHistory_entangled (i := 0) rfl
  obtain ⟨determinized, count, bound⟩ := result 2
  have length : trail.length = w.subsets.nodes.keys.toList.length := by
    simpa using congrArg List.length heads
  rw [liveChecks_entangled, ← length] at bound
  rw [← length] at count
  exact ⟨hasHistory_entangled, rfl, ⟨trail, w, run, determinized,
    count ▸ four_le_stateCount_entangled determinized, bound⟩, rounds, r, run', few⟩

end PatternAutomata
