import PatternAutomata.Proofs.Coarsest
import PatternAutomata.Proofs.Trails

/-!
# The decisions of deterministic automata

A state of a deterministic automaton decides a check, by one transition for each outcome, or it
sorts the characters, by transitions that share neither characters nor targets. What is decided
stays decided until a character is consumed, so that no path of glides decides a check twice
(`Staged`). Such paths are therefore short, and so is what a walk does at one position
(`Staged.staysAt_le`). A quotient keeps all this, since its paths are those of the automaton
(`Quotient.staged`).
-/
namespace PatternAutomata.Graph

variable {ν : Type} {g h : Graph ν} {s r : Nat} {k : ν × Mode} {pairs : List (ν × Mode)}

/-- The state decides a check: one transition leaves it for each outcome, and no other one. -/
def Decides (g : Graph ν) (s : Nat) (k : ν × Mode) : Prop :=
  ∃ t u, g.outgoing s = [t, u] ∧ t.condition = .check k.1 k.2 false ∧
    u.condition = .check k.1 k.2 true

/-- Every state decides one of the given checks or sorts the characters, and a check that is decided
is not decided again before a character is consumed. -/
structure Staged (g : Graph ν) (pairs : List (ν × Mode)) : Prop where
  shape : ∀ s, (∃ k ∈ pairs, g.Decides s k) ∨ g.Sorts s
  once : ∀ s r k, Relation.TransGen g.Glides s r → g.Decides s k → ¬ g.Decides r k

/-- A state that decides a check runs no other one. -/
theorem Decides.eq (decides : g.Decides s k) {t : Transition ν} (ht : t ∈ g.outgoing s)
    {l : ν × Mode} (hl : t.condition.check? = some l) : l = k := by
  obtain ⟨yes, no, out, hyes, hno⟩ := decides
  rw [out, List.mem_pair] at ht
  rcases ht with rfl | rfl
  · exact Option.some.inj (hl.symm.trans (congrArg Condition.check? hyes))
  · exact Option.some.inj (hl.symm.trans (congrArg Condition.check? hno))

theorem Decides.glides (decides : g.Decides s k) : ∃ t ∈ g.outgoing s, t.condition.check? = some k ∧
    g.Glides s t.target := by
  obtain ⟨t, u, out, hc, -⟩ := decides
  have ht : t ∈ g.outgoing s := by simp [out]
  exact ⟨t, ht, congrArg Condition.check? hc, t, ht, congrArg Condition.isConsuming hc, rfl⟩

theorem Decides.unique (first : g.Decides s k) {l : ν × Mode} (second : g.Decides s l) : k = l := by
  obtain ⟨t, ht, hk, -⟩ := first.glides
  exact second.eq ht hk

namespace Staged

variable (staged : g.Staged pairs)

include staged

theorem decides_of_glides (glide : g.Glides s r) : ∃ k ∈ pairs, g.Decides s k := by
  refine (staged.shape s).resolve_right fun sorts => ?_
  obtain ⟨t, ht, silent, -⟩ := glide
  cases silent.symm.trans (sorts.consuming t ht)

theorem decides_of_check {t : Transition ν} (ht : t ∈ g.outgoing s) {negated : Bool}
    (hc : t.condition = .check k.1 k.2 negated) : g.Decides s k := by
  have silent : t.condition.isConsuming = false := congrArg Condition.isConsuming hc
  obtain ⟨l, -, decides⟩ := staged.decides_of_glides ⟨t, ht, silent, rfl⟩
  have same : k = l := decides.eq ht (congrArg Condition.check? hc)
  exact same ▸ decides

/-- Glides form no cycle. -/
theorem acyclic (s : Nat) : ¬ Relation.TransGen g.Glides s s := by
  intro loop
  obtain ⟨r, glide, -⟩ := Relation.TransGen.head'_iff.mp loop
  obtain ⟨k, -, decides⟩ := staged.decides_of_glides glide
  exact staged.once s s k loop decides decides

/-- Every step on a path of glides is by a check of its own. -/
theorem exists_checks {path : List Nat} (chain : (s :: path).IsChain g.Glides) :
    ∃ ks : List (ν × Mode), ks.length = path.length ∧ ks.Nodup ∧ ks ⊆ pairs ∧
      ∀ k ∈ ks, ∃ q, Relation.ReflTransGen g.Glides s q ∧ g.Decides q k := by
  induction path generalizing s with
  | nil => exact ⟨[], rfl, .nil, List.nil_subset _, by simp⟩
  | cons r path ih =>
    obtain ⟨glide, chain'⟩ := List.isChain_cons_cons.mp chain
    obtain ⟨ks, len, once, sub, later⟩ := ih chain'
    obtain ⟨k, hk, decides⟩ := staged.decides_of_glides glide
    refine ⟨k :: ks, by simp [len], List.nodup_cons.mpr ⟨?_, once⟩,
      List.cons_subset.mpr ⟨hk, sub⟩, List.forall_mem_cons.mpr ⟨⟨s, .refl, decides⟩, ?_⟩⟩
    · intro again
      obtain ⟨q, reach, decides'⟩ := later k again
      exact staged.once s q k (.head' glide reach) decides decides'
    · intro l hl
      obtain ⟨q, reach, decides'⟩ := later l hl
      exact ⟨q, reach.head glide, decides'⟩

theorem length_le {path : List Nat} (chain : (s :: path).IsChain g.Glides) :
    path.length ≤ pairs.length := by
  obtain ⟨ks, len, once, sub, -⟩ := staged.exists_checks chain
  exact len ▸ (once.subperm sub).length_le

/-- A walk does not stay at a position for more steps than there are checks, whatever the nested
automata are. -/
theorem staysAt_le {μ : Type} {f : ν → μ} {probe : Probe μ} {earliest : Bool} {window : List Char}
    (pos : Nat) : staysAt pos ((g.replace f).trail probe earliest window).2 ≤ pairs.length := by
  have path : ∃ r path, (r :: path).IsChain (g.replace f).Glides ∧
      path.length = staysAt pos ((g.replace f).trail probe earliest window).2 :=
    exists_path_of_trail pos
  rw [glides_replace] at path
  obtain ⟨r, path, chain, stays⟩ := path
  exact stays ▸ staged.length_le chain

end Staged

section
variable [DecidableEq ν] [Hashable ν]

/-- The nested automata that are run by an automaton, each with its mode and each once. -/
def liveChecks (g : Graph ν) : List (ν × Mode) :=
  distinct (g.liveTransitions.filterMap fun t => t.1.condition.check?)

theorem Meets.mem_liveChecks (hg : g.Intact) (meets : g.Meets k) : k ∈ g.liveChecks := by
  obtain ⟨s, t, ht, hk⟩ := meets
  obtain ⟨n, hn⟩ := hg.mem_liveTransitions ht
  exact mem_distinct.mpr (List.mem_filterMap.mpr ⟨_, hn, hk⟩)

namespace Determined

variable {d : Graph ν} {i j : Nat} {b : Subsets ν} {node : Node} (det : Determined g d i b)

include det

/-- A node that asks for the outcome of a check decides it. -/
theorem decides (hj : b.nodes.keys[j]? = some node) {n : Nat} (leaves : g.leavesOf b.checks node =
    [g.outcomeOf b.checks node n k true, g.outcomeOf b.checks node n k false]) : d.Decides j k := by
  have out := det.outgoing_eq hj
  rw [leaves] at out
  exact ⟨_, _, out, rfl, rfl⟩

variable (free : ∀ s, ∀ t ∈ g.outgoing s, t.condition.isSigma = false)

include free

theorem shape (j : Nat) : (∃ k ∈ g.liveChecks, d.Decides j k) ∨ d.Sorts j := by
  cases hj : b.nodes.keys[j]? with
  | none => exact .inr (.of_nil (det.outgoing_eq_nil hj))
  | some node =>
    rcases leavesOf_cases (M := b.checks) (sigmaOf_eq_nil free node) with
      ⟨n, -, k, place, leaves⟩ | leaves
    · have known := Numbering.place?_isSome_iff.mp (Option.isSome_of_eq_some place)
      exact .inl ⟨k, (det.run.known k known).mem_liveChecks det.intact, det.decides hj leaves⟩
    · exact .inr (det.sorts hj leaves)

/-- A node with an undecided check becomes a decision. -/
theorem decides_of_undecided (hj : b.nodes.keys[j]? = some node)
    (more : g.undecidedOf b.checks node ≠ []) : ∃ k ∈ g.liveChecks, d.Decides j k := by
  refine (det.shape free j).resolve_right fun sorts => ?_
  obtain ⟨n, k, -, leaf⟩ := exists_outcomes more
  have out := det.outgoing_eq hj
  have ht : (⟨edgeTo b.nodes j (g.outcomeOf b.checks node n k true), false⟩ : Transition ν) ∈
      d.outgoing j := out ▸ List.mem_map.mpr ⟨_, leaf true, rfl⟩
  cases sorts.consuming _ ht

/-- A glide is by an outcome of an undecided check. -/
theorem exists_outcome (hj : b.nodes.keys[j]? = some node) (glide : d.Glides j r) :
    ∃ n ∈ g.undecidedOf b.checks node, ∃ k, b.checks.place? k = some n ∧ d.Decides j k ∧
      ∃ found, b.nodes.keys[r]? = some (g.outcomeOf b.checks node n k found).2 := by
  obtain ⟨t, ht, silent, rfl⟩ := glide
  rcases leavesOf_cases (M := b.checks) (sigmaOf_eq_nil free node) with
    ⟨n, hn, k, place, leaves⟩ | leaves
  · have outcome (found : Bool) :
        b.nodes.keys[(edgeTo b.nodes j (g.outcomeOf b.checks node n k found)).target]? =
          some (g.outcomeOf b.checks node n k found).2 :=
      det.key_target hj (by cases found <;> simp [leaves])
    refine ⟨n, hn, k, place, det.decides hj leaves, ?_⟩
    rw [det.outgoing_eq hj, leaves] at ht
    rcases List.mem_pair.mp ht with rfl | rfl
    · exact ⟨true, outcome true⟩
    · exact ⟨false, outcome false⟩
  · cases silent.symm.trans ((det.sorts hj leaves).consuming t ht)

/-- A check that a state decides is undecided at its node. -/
theorem undecided (hj : b.nodes.keys[j]? = some node) (decides : d.Decides j k) :
    ∃ n ∈ g.undecidedOf b.checks node, b.checks.place? k = some n := by
  obtain ⟨t, -, -, glide⟩ := decides.glides
  obtain ⟨n, hn, l, place, decides', -⟩ := det.exists_outcome free hj glide
  exact ⟨n, hn, decides.unique decides' ▸ place⟩

/-- What has been decided is known on every path of glides. -/
theorem known (hj : b.nodes.keys[j]? = some node) (decides : d.Decides j k)
    (path : Relation.TransGen d.Glides j r) : ∃ next, b.nodes.keys[r]? = some next ∧
      ∃ e ∈ next.decided, b.checks.place? k = some e.1 := by
  induction path with
  | single glide =>
    obtain ⟨n, hn, l, place, decides', found, key⟩ := det.exists_outcome free hj glide
    exact ⟨_, key, (n, found), mem_decide.mpr (.inl rfl), decides.unique decides' ▸ place⟩
  | tail _ glide ih =>
    obtain ⟨next, key, e, he, place⟩ := ih
    obtain ⟨n, -, l, -, -, found, key'⟩ := det.exists_outcome free key glide
    exact ⟨_, key', e, mem_decide.mpr (.inr he), place⟩

theorem staged : d.Staged g.liveChecks := by
  refine ⟨det.shape free, ?_⟩
  intro j r k path decides again
  obtain ⟨t, ht, -⟩ := decides.glides
  obtain ⟨node, hj⟩ := det.isLive_iff.mp (det.intact_graph.isLive_source ht)
  obtain ⟨next, key, e, he, place⟩ := det.known free hj decides path
  obtain ⟨n, hn, place'⟩ := det.undecided free key again
  exact (mem_undecidedOf.mp hn).2 e he (Option.some.inj (place.symm.trans place'))

end Determined

end

/-- Where the second automaton glides, the first one does. -/
theorem Bisimulation.glides {R : Nat → Nat → Prop} (b : Bisimulation g h R) {x y : Nat}
    (related : R s x) (glide : h.Glides x y) : ∃ r, g.Glides s r ∧ R r y := by
  obtain ⟨u, hu, silent, rfl⟩ := glide
  obtain ⟨t, ht, same, target⟩ := b.back s x related _ (.silent u.condition silent) u hu rfl
  exact ⟨t.target, ⟨t, ht, same ▸ silent, rfl⟩, target⟩

theorem Bisimulation.path {R : Nat → Nat → Prop} (b : Bisimulation g h R) {x y : Nat}
    (related : R s x) (path : Relation.TransGen h.Glides x y) :
    ∃ r, Relation.TransGen g.Glides s r ∧ R r y := by
  induction path with
  | single glide =>
    obtain ⟨r, glide', target⟩ := b.glides related glide
    exact ⟨r, .single glide', target⟩
  | tail _ glide ih =>
    obtain ⟨q, path', middle⟩ := ih
    obtain ⟨r, glide', target⟩ := b.glides middle glide
    exact ⟨r, path'.tail glide', target⟩

/-- Where the second automaton decides a check, the first one does. -/
theorem Staged.decides_of_related {R : Nat → Nat → Prop} (staged : g.Staged pairs)
    (b : Bisimulation g h R) {x : Nat} (related : R s x) (decides : h.Decides x k) :
    g.Decides s k := by
  obtain ⟨u, v, out, hc, -⟩ := decides
  have silent : u.condition.isConsuming = false := congrArg Condition.isConsuming hc
  obtain ⟨t, ht, same, -⟩ :=
    b.back s x related _ (.silent u.condition silent) u (by simp [out]) rfl
  exact staged.decides_of_check ht (same.trans hc)

namespace Quotient

variable [DecidableEq ν] [Hashable ν] {m : Graph ν} {i b : Nat} {d : Division}
  (q : Quotient g m i d) (hs : (d.representatives g.liveStates)[b]? = some s)

include q hs

theorem decides (decides : g.Decides s k) : m.Decides b k := by
  obtain ⟨t, u, out, hc, hc'⟩ := decides
  have silent : (g.outgoing s).filter (fun t => !t.condition.isConsuming) = [t, u] := by
    simp [out, hc, hc', Condition.isConsuming]
  have consuming : (g.leaving .empty s).consumingTo d = [] := by
    simp [leaving, Leaving.consumingTo, out, hc, hc', Condition.charSet?]
  have edges : g.blockEdges d b s = [⟨b, d.block t.target, t.condition⟩,
      ⟨b, d.block u.target, u.condition⟩] := by
    rw [blockEdges, silent, consuming]
    refine (List.append_nil _).trans (distinct_eq_self ?_)
    simp [hc, hc']
  have out' := q.outgoing_eq hs
  rw [edges] at out'
  exact ⟨_, _, out', hc, hc'⟩

omit hs

/-- The quotient of a staged automaton is staged. -/
theorem staged (same : Bisimulation g g (g.SameBlock d)) (staged : g.Staged pairs) :
    m.Staged pairs := by
  have down := q.bisimulation same
  refine ⟨fun b => ?_, fun b c k path decides again => ?_⟩
  · by_cases live : m.IsLive b
    · obtain ⟨s, hs, -⟩ := q.exists_representative (q.isLive_iff.mp live)
      rcases staged.shape s with ⟨k, hk, decides⟩ | sorts
      · exact .inl ⟨k, hk, q.decides hs decides⟩
      · exact .inr (q.sorts hs sorts.takes sorts.single)
    · exact .inr (.of_nil (q.outgoing_eq_nil live))
  · obtain ⟨t, ht, -⟩ := decides.glides
    obtain ⟨s, related⟩ := q.exists_state (q.isLive_iff.mp (q.intact_graph.isLive_source ht))
    obtain ⟨r, path', related'⟩ := down.path related path
    exact staged.once s r k path' (staged.decides_of_related down related decides)
      (staged.decides_of_related down related' again)

end Quotient

/-- Without sigma transitions, the deterministic form of an automaton is staged by the checks of the
automaton, and so is the quotient of this form. Glides form no cycle there, and a search along a
single way stays at a position for no more steps than there are checks. -/
theorem determinize_staged {g : Automaton} {i : Nat} (hg : g.HasHistory)
    (initial : g.initial = some i) (free : g.hasSigma = false) (tag tag' : Nat) :
    ∃ d m, g.determinize tag = .ok d ∧ d.minimize tag' = .ok m ∧ ∀ a, a = d ∨ a = m →
      a.Staged g.liveChecks ∧ (∀ s, ¬ Relation.TransGen a.Glides s s) ∧
        ∀ earliest window, ∃ trail,
          (Nested.ready a).trail Nested.Trial.run earliest window =
            ((Nested.ready a).search Nested.Trial.run .dfa earliest window, trail) ∧
              ∀ pos, staysAt pos trail ≤ g.liveChecks.length := by
  obtain ⟨d, b, ok, det⟩ := determinize_spec hg.intact initial tag
  obtain ⟨m, ok', q⟩ := minimize_spec det.intact_graph det.initial tag'
  have live := det.intact_graph.initial_live 0 det.initial
  have first : d.Staged g.liveChecks := det.staged (isSigma_of_hasSigma hg.intact free)
  have second : m.Staged g.liveChecks :=
    q.staged (bisimulation_division det.intact_graph live) first
  refine ⟨d, m, ok, ok', fun a ha => ?_⟩
  have staged : a.Staged g.liveChecks := by
    rcases ha with rfl | rfl
    · exact first
    · exact second
  refine ⟨staged, staged.acyclic, fun earliest window => ⟨_, Prod.ext trail_fst rfl, fun pos => ?_⟩⟩
  rw [Nested.ready_eq]
  exact staged.staysAt_le pos

theorem liveChecks_guarded : guarded.liveChecks = [(.of letter, .nfa)] := by
  unfold liveChecks
  rw [liveTransitions_guarded]
  exact distinct_eq_self (List.nodup_singleton _)

/-- The check that leaves the initial state becomes a decision. -/
theorem decides_guarded {d : Automaton} {tag : Nat} (ok : guarded.determinize tag = .ok d) :
    d.Decides 0 (.of letter, .nfa) := by
  have intact : guarded.Intact := hasHistory_guarded.intact
  have out : guarded.outgoing 0 = [⟨⟨0, 1, .check (.of letter) .nfa false⟩, false⟩] := rfl
  obtain ⟨d, b, ok', det⟩ := determinize_spec intact initial_guarded tag
  cases ok.symm.trans ok'
  have more := det.undecided_of_check (det.mem_start) rfl (List.mem_singleton.mpr rfl)
    (out ▸ List.mem_singleton.mpr rfl) rfl
  obtain ⟨k, hk, decides⟩ := det.decides_of_undecided (isSigma_of_hasSigma intact rfl)
    det.key_start more
  rw [liveChecks_guarded, List.mem_singleton] at hk
  exact hk ▸ decides

theorem determinize_staged_guarded : guarded.HasHistory ∧ guarded.initial = some 0 ∧
    guarded.hasSigma = false ∧ ∃ d m, guarded.determinize 2 = .ok d ∧ d.minimize 3 = .ok m ∧
      d.Staged [(.of letter, .nfa)] ∧ d.Decides 0 (.of letter, .nfa) ∧
        m.Staged [(.of letter, .nfa)] ∧
          staysAt 0 ((Nested.ready m).trail Nested.Trial.run false "ab".toList).2 ≤ 1 := by
  obtain ⟨d, m, ok, ok', shape⟩ := determinize_staged hasHistory_guarded initial_guarded rfl 2 3
  obtain ⟨staged, -, -⟩ := shape d (.inl rfl)
  obtain ⟨staged', -, short⟩ := shape m (.inr rfl)
  obtain ⟨trail, walked, stays⟩ := short false "ab".toList
  rw [liveChecks_guarded] at staged staged' stays
  exact ⟨hasHistory_guarded, initial_guarded, rfl, d, m, ok, ok', staged, decides_guarded ok,
    staged', walked ▸ stays 0⟩

end PatternAutomata.Graph
