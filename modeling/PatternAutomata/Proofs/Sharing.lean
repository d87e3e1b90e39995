import Mathlib.Data.Set.Card
import PatternAutomata.Proofs.Decisions
import PatternAutomata.Proofs.Nesting
import PatternAutomata.Proofs.Offences

/-!
# One nested automaton for each body

Compiling an expression leaves a table of nested automata behind, one for each body, which is a
ledger: every automaton in it nests what the table holds for the bodies of its own body, and has a
tag that no other one has. What an automaton nests at any depth is then in the table, so there is at
most one nested automaton for each body (`Ledger.encard_carries_le`). Preparing an automaton may
drop checks or merge them, but it brings in no nested automata (`mem_nested_of_prepare`); an
automaton that is left as it was constructed still has the checks at the places at which the
construction asks for their bodies, where two of them carry the same exactly if the bodies are the
same (`Ledger.carries_iff`).
-/
namespace PatternAutomata

namespace Expr

/-- A lookahead in the expression has the body. -/
def HasBody (e b : Expr) : Prop := ∃ negated, lookahead b negated ∈ e.walk

theorem HasBody.trans {e b c : Expr} (h : e.HasBody b) (k : b.HasBody c) : e.HasBody c := by
  obtain ⟨negated, mem⟩ := h
  obtain ⟨negated', mem'⟩ := k
  refine ⟨negated', walk_sub e _ mem ?_⟩
  rw [walk]
  exact List.mem_cons_of_mem _ mem'

theorem HasBody.of_child {e b c : Expr} (child : c ∈ e.children) (h : c.HasBody b) :
    e.HasBody b := by
  obtain ⟨negated, mem⟩ := h
  refine ⟨negated, ?_⟩
  rw [walk_eq]
  exact List.mem_cons_of_mem _ (List.mem_flatMap_of_mem child mem)

theorem sizeOf_le_of_mem_walk (e x : Expr) (mem : x ∈ e.walk) : sizeOf x ≤ sizeOf e := by
  rw [walk_eq, List.mem_cons] at mem
  rcases mem with rfl | mem
  · exact Nat.le_refl _
  · obtain ⟨c, child, mem⟩ := List.mem_flatMap.mp mem
    have lt := sizeOf_lt_of_mem_children child
    have le := sizeOf_le_of_mem_walk c x mem
    omega
termination_by sizeOf e

theorem HasBody.sizeOf_lt {e b : Expr} (h : e.HasBody b) : sizeOf b < sizeOf e := by
  obtain ⟨negated, mem⟩ := h
  have le := sizeOf_le_of_mem_walk e _ mem
  simp only [lookahead.sizeOf_spec] at le
  omega

/-- No body contains itself. -/
theorem not_hasBody_self (b : Expr) : ¬ b.HasBody b :=
  fun has => Nat.lt_irrefl _ has.sizeOf_lt

end Expr

namespace Graph

section
variable {ν : Type} {g h : Graph ν} {n : ν}

/-- The live transition with a number runs a check. -/
def ChecksAt (g : Graph ν) (i : Nat) (n : ν) : Prop :=
  ∃ t, (t, i) ∈ g.liveTransitions ∧ ∃ mode negated, t.condition = .check n mode negated

theorem mem_nested_iff_checksAt : n ∈ g.nested ↔ ∃ i, g.ChecksAt i n := by
  rw [Graph.mem_nested_iff, exists_comm]
  rfl

theorem ChecksAt.unique {i : Nat} {m : ν} (h : g.ChecksAt i n) (k : g.ChecksAt i m) : n = m := by
  obtain ⟨t, live, _, _, check⟩ := h
  obtain ⟨u, live', _, _, check'⟩ := k
  have same := (mem_liveTransitions_iff.mp live).1.symm.trans (mem_liveTransitions_iff.mp live').1
  cases same
  cases check.symm.trans check'
  rfl

theorem Intact.mem_nested_iff (hg : g.Intact) : n ∈ g.nested ↔
    ∃ s, ∃ t ∈ g.outgoing s, ∃ mode negated, t.condition = .check n mode negated := by
  rw [Graph.mem_nested_iff]
  constructor
  · rintro ⟨t, i, ht, check⟩
    exact ⟨_, t, hg.outgoing_of_live ht, check⟩
  · rintro ⟨s, t, ht, check⟩
    obtain ⟨i, hi⟩ := hg.mem_liveTransitions ht
    exact ⟨t, i, hi, check⟩

/-- The checks of a staged automaton are those that it is staged by. -/
theorem Staged.mem_pairs {pairs : List (ν × Mode)} (staged : g.Staged pairs) {s : Nat}
    {t : Transition ν} (ht : t ∈ g.outgoing s) {mode : Mode} {negated : Bool}
    (hc : t.condition = .check n mode negated) : (n, mode) ∈ pairs := by
  have checked : t.condition.check? = some (n, mode) := congrArg Condition.check? hc
  have silent : t.condition.isConsuming = false := congrArg Condition.isConsuming hc
  rcases staged.shape s with ⟨k, hk, decides⟩ | sorts
  · exact decides.eq ht checked ▸ hk
  · cases silent.symm.trans (sorts.consuming t ht)

theorem mem_nested_of_withoutSigma (hg : g.Intact) (without : WithoutSigma g h)
    (hn : n ∈ h.nested) : n ∈ g.nested := by
  obtain ⟨p, t, ht, mode, negated, hc⟩ := without.intact.mem_nested_iff.mp hn
  obtain ⟨s, r, hr, same⟩ := (without.conditions p t ht).2
  exact hg.mem_nested_iff.mpr ⟨s, r, hr, mode, negated, same.trans hc⟩

variable [DecidableEq ν] [Hashable ν]

theorem mem_nested_of_staged (hg : g.Intact) (staged : g.Staged h.liveChecks) (hn : n ∈ g.nested) :
    n ∈ h.nested := by
  obtain ⟨s, t, ht, mode, negated, hc⟩ := hg.mem_nested_iff.mp hn
  obtain ⟨⟨u, i⟩, hu, check⟩ := List.mem_filterMap.mp (mem_distinct.mp (staged.mem_pairs ht hc))
  cases condition : u.condition <;> rw [condition] at check <;> cases check
  exact mem_nested_iff.mpr ⟨u, i, hu, _, _, condition⟩

/-- Preparing an automaton brings in no nested automata. -/
theorem mem_nested_of_prepare {i tag : Nat} {mode : Mode} (hg : g.Intact)
    (initial : g.initial = some i) (ok : g.prepare tag mode = .ok h) (hn : n ∈ h.nested) :
    n ∈ g.nested := by
  obtain ⟨f, free, without⟩ := removeEpsilon_spec hg initial tag
  obtain ⟨j, start, -⟩ := without.start initial
  obtain ⟨d, b, ok', det⟩ := determinize_spec without.intact start tag
  have first : d.Staged f.liveChecks := det.staged fun s t ht => (without.conditions s t ht).1
  cases mode with
  | nfa =>
    cases ok
    exact hn
  | dfa =>
    have prepared : g.prepare tag .dfa = .ok d := by
      simp only [prepare, free]
      exact ok'
    cases prepared.symm.trans ok
    exact mem_nested_of_withoutSigma hg without (mem_nested_of_staged det.intact_graph first hn)
  | minimal =>
    obtain ⟨m, least, q⟩ := minimize_spec det.intact_graph det.initial tag
    cases (prepare_minimal free ok' least).symm.trans ok
    have live := det.intact_graph.initial_live 0 det.initial
    have second : h.Staged f.liveChecks :=
      q.staged (bisimulation_division det.intact_graph live) first
    exact mem_nested_of_withoutSigma hg without (mem_nested_of_staged q.intact_graph second hn)

/-- A prepared automaton has the tag that is asked for. -/
theorem tag_of_prepare {tag : Nat} {mode : Mode} (same : g.tag = tag)
    (ok : g.prepare tag mode = .ok h) : h.tag = tag := by
  have determinized {f d : Graph ν} (ok : f.determinize tag = .ok d) : d.tag = tag := by
    unfold determinize at ok
    split at ok <;> cases ok
    exact tag_of_build
  cases mode with
  | nfa =>
    cases ok
    exact same
  | dfa =>
    obtain ⟨f, -, ok⟩ := bind_eq_ok.mp ok
    exact determinized ok
  | minimal =>
    obtain ⟨f, -, ok⟩ := bind_eq_ok.mp ok
    obtain ⟨d, -, ok⟩ := bind_eq_ok.mp ok
    unfold minimize at ok
    split at ok <;> cases ok
    exact tag_of_build

end

/-- What a check transition of an automaton carries, at any depth. It is addressed by the numbers
of the transitions on the way to it. -/
inductive Carries : Automaton → List Nat → Nested → Prop where
  | here {A : Automaton} {i : Nat} {n : Nested} (check : A.ChecksAt i n) : A.Carries [i] n
  | inside {A : Automaton} {i : Nat} {path : List Nat} {m n : Nested} (check : A.ChecksAt i m)
      (rest : m.automaton.Carries path n) : A.Carries (i :: path) n

end Graph

/-- The body that the construction from an expression asks for at an address. What it asks for at
the addresses that begin with the number of a transition is asked for by the body of that
transition. -/
inductive Expr.Asks : Expr → List Nat → Expr → Prop where
  | here {e b : Expr} {i : Nat} (check : (Graph.ofExpr 0 .nfa e).ChecksAt i b) : e.Asks [i] b
  | inside {e b c : Expr} {i : Nat} {path : List Nat}
      (check : (Graph.ofExpr 0 .nfa e).ChecksAt i b) (rest : b.Asks path c) : e.Asks (i :: path) c

theorem Expr.Asks.unique {e b c : Expr} {path : List Nat} (h : e.Asks path b)
    (k : e.Asks path c) : b = c := by
  induction h with
  | here check =>
    cases k with
    | here check' => exact check.unique check'
    | inside _ rest => cases rest
  | inside check rest ih =>
    cases k with
    | here => cases rest
    | inside check' rest' =>
      cases check.unique check'
      exact ih rest'

namespace Graph

/-- What a table holds is held by a later one. -/
def Compilations.KeptIn (table table' : Compilations) : Prop :=
  ∀ (b : Expr) (n : Nested), table[b]? = some n → table'[b]? = some n

theorem Compilations.KeptIn.trans {table table' table'' : Compilations} (h : table.KeptIn table')
    (k : table'.KeptIn table'') : table.KeptIn table'' := fun b n held => k b n (h b n held)

end Graph

/-- A condition with nested automata from a table in the place of bodies. -/
inductive Condition.Furnished (table : Graph.Compilations) :
    Condition Expr → Condition Nested → Prop where
  | char (c : Char) : Furnished table (.char c) (.char c)
  | set (s : CharSet) : Furnished table (.set s) (.set s)
  | sigma : Furnished table .sigma .sigma
  | check {b : Expr} {n : Nested} (mode : Mode) (negated : Bool) (held : table[b]? = some n) :
      Furnished table (.check b mode negated) (.check n mode negated)

theorem Condition.Furnished.mono {table table' : Graph.Compilations} {c : Condition Expr}
    {c' : Condition Nested} (h : c.Furnished table c') (kept : table.KeptIn table') :
    c.Furnished table' c' := by
  cases h with
  | char c => exact .char c
  | set s => exact .set s
  | sigma => exact .sigma
  | check mode negated held => exact .check mode negated (kept _ _ held)

namespace Graph

/-- The transitions of an automaton are those of another one, with nested automata from a table. -/
structure Places (table : Compilations) (g : Graph Expr) (A : Automaton) : Prop where
  size : A.transitions.size = g.transitions.size
  furnished : ∀ (i : Nat) t t', g.transitions[i]? = some t → A.transitions[i]? = some t' →
    t.condition.Furnished table t'.condition ∧ t'.deleted = t.deleted

/-- The automaton of an expression nests what a table holds for the bodies of the expression. If it
is left as it was constructed, each transition nests what the table holds for its body. -/
structure Furnished (table : Compilations) (mode : Mode) (e : Expr) (A : Automaton) : Prop where
  nested : ∀ n ∈ A.nested, ∃ b, e.HasBody b ∧ table[b]? = some n
  places : mode = .nfa → Places table (ofExpr 0 .nfa e) A

/-- A table holds automata of bodies that nest what the table holds, each of them with a tag of its
own. -/
structure Ledger (mode : Mode) (table : Compilations) : Prop where
  furnished : ∀ (b : Expr) (n : Nested), table[b]? = some n →
    Furnished table mode b n.automaton
  apart : ∀ (b c : Expr) (n m : Nested), table[b]? = some n → table[c]? = some m →
    n.automaton.tag = m.automaton.tag → b = c

section
variable {table table' : Compilations} {mode : Mode} {e b c : Expr} {A : Automaton}
  {n : Nested} {tag : Nat}

theorem Furnished.mono (h : Furnished table mode e A) (kept : table.KeptIn table') :
    Furnished table' mode e A := by
  refine ⟨fun n hn => ?_, fun nfa => ⟨(h.places nfa).size, fun i t t' ht ht' => ?_⟩⟩
  · obtain ⟨b, has, held⟩ := h.nested n hn
    exact ⟨b, has, kept b n held⟩
  · exact ((h.places nfa).furnished i t t' ht ht').imp_left (·.mono kept)

namespace Places

variable {g : Graph Expr} {i : Nat}

theorem exists_body (h : Places table g A) (check : A.ChecksAt i n) :
    ∃ b, g.ChecksAt i b ∧ table[b]? = some n := by
  obtain ⟨t', live, mode, negated, hc'⟩ := check
  obtain ⟨ht', alive⟩ := mem_liveTransitions_iff.mp live
  have lt := h.size ▸ (Array.getElem?_eq_some_iff.mp ht').1
  have ht := Array.getElem?_eq_getElem lt
  obtain ⟨furnished, deleted⟩ := h.furnished i _ t' ht ht'
  rw [hc'] at furnished
  generalize hc : Edge.condition _ = c at furnished
  cases furnished with
  | check _ _ held =>
    exact ⟨_, ⟨_, mem_liveTransitions_iff.mpr ⟨ht, deleted ▸ alive⟩, mode, negated, hc⟩, held⟩

theorem exists_nested (h : Places table g A) (check : g.ChecksAt i b) :
    ∃ n, A.ChecksAt i n ∧ table[b]? = some n := by
  obtain ⟨t, live, mode, negated, hc⟩ := check
  obtain ⟨ht, alive⟩ := mem_liveTransitions_iff.mp live
  have lt := h.size.symm ▸ (Array.getElem?_eq_some_iff.mp ht).1
  have ht' := Array.getElem?_eq_getElem lt
  obtain ⟨furnished, deleted⟩ := h.furnished i t _ ht ht'
  rw [hc] at furnished
  generalize hc' : Edge.condition _ = c at furnished
  cases furnished with
  | check _ _ held =>
    exact ⟨_, ⟨_, mem_liveTransitions_iff.mpr ⟨ht', deleted.trans alive⟩, mode, negated, hc'⟩, held⟩

end Places

theorem held_of_insert {m : Nested} (held : (table.insert b n)[c]? = some m) :
    c = b ∧ m = n ∨ table[c]? = some m := by
  rw [Std.HashMap.getElem?_insert] at held
  split at held
  · next same =>
    cases held
    exact .inl ⟨(eq_of_beq same).symm, rfl⟩
  · exact .inr held

namespace Ledger

variable {path path' : List Nat} {m : Nested}

/-- At any depth, an automaton nests what the table holds for the bodies of the expression. -/
theorem exists_hasBody (ledger : Ledger mode table) (furnished : Furnished table mode e A)
    (carries : A.Carries path n) : ∃ b, e.HasBody b ∧ table[b]? = some n := by
  induction carries generalizing e with
  | here check => exact furnished.nested _ (mem_nested_iff_checksAt.mpr ⟨_, check⟩)
  | inside check _ ih =>
    obtain ⟨b, has, held⟩ := furnished.nested _ (mem_nested_iff_checksAt.mpr ⟨_, check⟩)
    obtain ⟨c, has', held'⟩ := ih (ledger.furnished b _ held)
    exact ⟨c, has.trans has', held'⟩

theorem exists_asks (ledger : Ledger .nfa table) (furnished : Furnished table .nfa e A)
    (carries : A.Carries path n) : ∃ b, e.Asks path b ∧ table[b]? = some n := by
  induction carries generalizing e with
  | here check =>
    obtain ⟨b, asked, held⟩ := (furnished.places rfl).exists_body check
    exact ⟨b, .here asked, held⟩
  | inside check _ ih =>
    obtain ⟨b, asked, held⟩ := (furnished.places rfl).exists_body check
    obtain ⟨c, asks, held'⟩ := ih (ledger.furnished b _ held)
    exact ⟨c, .inside asked asks, held'⟩

theorem exists_carries (ledger : Ledger .nfa table) (furnished : Furnished table .nfa e A)
    (asks : e.Asks path b) : ∃ n, A.Carries path n := by
  induction asks generalizing A with
  | here check =>
    obtain ⟨n, carried, -⟩ := (furnished.places rfl).exists_nested check
    exact ⟨n, .here carried⟩
  | inside check _ ih =>
    obtain ⟨m, carried, held⟩ := (furnished.places rfl).exists_nested check
    obtain ⟨n, carries⟩ := ih (ledger.furnished _ m held)
    exact ⟨n, .inside carried carries⟩

theorem held (ledger : Ledger .nfa table) (furnished : Furnished table .nfa e A)
    (carries : A.Carries path n) (asks : e.Asks path b) : table[b]? = some n := by
  obtain ⟨c, asks', held⟩ := ledger.exists_asks furnished carries
  exact asks.unique asks' ▸ held

/-- What two transitions carry, at any depth, is the same exactly if they are asked for by the same
body, and it already has the same tag only then. -/
theorem carries_iff (ledger : Ledger .nfa table) (furnished : Furnished table .nfa e A)
    (first : A.Carries path n) (second : A.Carries path' m) (asks : e.Asks path b)
    (asks' : e.Asks path' c) :
    (n = m ↔ b = c) ∧ (n.automaton.tag = m.automaton.tag ↔ b = c) := by
  have held := ledger.held furnished first asks
  have held' := ledger.held furnished second asks'
  have same (tags : n.automaton.tag = m.automaton.tag) : b = c :=
    ledger.apart b c n m held held' tags
  have equal (bodies : b = c) : n = m := Option.some.inj (held.symm.trans (bodies ▸ held'))
  exact ⟨⟨fun nested => same (nested ▸ rfl), equal⟩, same, fun bodies => equal bodies ▸ rfl⟩

/-- There are not more nested automata than bodies. -/
theorem encard_carries_le (ledger : Ledger mode table) (furnished : Furnished table mode e A) :
    {n | ∃ path, A.Carries path n}.encard ≤ {b | e.HasBody b}.encard := by
  have image : {n | ∃ path, A.Carries path n} ⊆
      (fun b : Expr => table[b]?.getD (.of (empty 0))) '' {b | e.HasBody b} := by
    rintro n ⟨path, carries⟩
    obtain ⟨b, has, held⟩ := ledger.exists_hasBody furnished carries
    exact ⟨b, has, congrArg (·.getD (.of (empty 0))) held⟩
  exact (Set.encard_le_encard image).trans (Set.encard_image_le _ _)

theorem insert (ledger : Ledger mode table) (new : table[b]? = none)
    (furnished : Furnished table mode b A)
    (other : ∀ (c : Expr) (m : Nested), table[c]? = some m → m.automaton.tag ≠ A.tag) :
    Ledger mode (table.insert b (.of A)) ∧ table.KeptIn (table.insert b (.of A)) := by
  have kept : table.KeptIn (table.insert b (.of A)) := by
    intro c m held
    have ne : b ≠ c := by
      rintro rfl
      cases new.symm.trans held
    rw [Std.HashMap.getElem?_insert, beq_eq_false_iff_ne.mpr ne]
    exact held
  refine ⟨⟨fun c m held => ?_, fun c d m k heldm heldk same => ?_⟩, kept⟩
  · rcases held_of_insert held with ⟨rfl, rfl⟩ | old
    · exact furnished.mono kept
    · exact (ledger.furnished c m old).mono kept
  · rcases held_of_insert heldm with ⟨rfl, rfl⟩ | oldm
    · rcases held_of_insert heldk with ⟨rfl, rfl⟩ | oldk
      · rfl
      · exact absurd same.symm (other d k oldk)
    · rcases held_of_insert heldk with ⟨rfl, rfl⟩ | oldk
      · exact absurd same (other c m oldm)
      · exact ledger.apart c d m k oldm oldk same

end Ledger

theorem transitions_ofExpr : (ofExpr tag mode e).transitions =
    ((Fragment.ofExpr mode e).run ⟨0, #[]⟩).2.edges.map fun x => ⟨x, false⟩ := by
  apply Array.ext'
  rw [Array.toList_map]
  exact transitions_build

/-- Constructed automata run checks on the bodies of lookaheads. -/
theorem hasBody_of_checksAt (sound : e.fault? = none) {i : Nat}
    (check : (ofExpr tag mode e).ChecksAt i b) : e.HasBody b := by
  obtain ⟨t, live, mode', negated, hc⟩ := check
  exact ⟨negated, (drawn_of_live sound live hc).2⟩

/-- If a table holds the bodies of an expression, the automaton of the expression nests what the
table holds. -/
theorem furnished_of_compileWith (sound : e.fault? = none)
    (known : ∀ b, e.HasBody b → b ∈ table) (ok : compileWith table tag mode e = .ok A) :
    Furnished table mode e A ∧ A.tag = tag := by
  have made := constructed sound tag mode
  obtain ⟨i, initial, -⟩ := made.initial
  obtain ⟨h, prepared, -⟩ := exists_prepare made.intact initial tag mode
  have held {b : Expr} (has : e.HasBody b) :
      table[b]? = some (table.getD b (.of (empty 0))) := by
    obtain ⟨n, held⟩ := Option.isSome_iff_exists.mp
      (Std.HashMap.mem_iff_isSome_getElem?.mp (known b has))
    rw [Std.HashMap.getD_eq_getD_getElem?, held]
    rfl
  have same : (ofExpr tag mode e).tag = tag := tag_of_build
  have tagged : h.tag = tag := tag_of_prepare same prepared
  unfold compileWith at ok
  rw [prepared] at ok
  cases ok
  refine ⟨⟨fun n hn => ?_, ?_⟩, tagged⟩
  · obtain ⟨-, b, hb, rfl⟩ := mem_nested_mapNested hn
    obtain ⟨j, check⟩ := mem_nested_iff_checksAt.mp
      (mem_nested_of_prepare made.intact initial prepared hb)
    have has := hasBody_of_checksAt sound check
    exact ⟨b, has, held has⟩
  · rintro rfl
    cases prepared
    have transitions : (ofExpr 0 .nfa e).transitions = (ofExpr tag .nfa e).transitions :=
      transitions_ofExpr.trans transitions_ofExpr.symm
    refine ⟨by simp [fill, mapNested, transitions], fun j t t' ht ht' => ?_⟩
    rw [transitions] at ht
    rw [fill, getElem?_mapNested, ht] at ht'
    cases ht'
    refine ⟨?_, rfl⟩
    change t.condition.Furnished table (t.condition.map fun b => table.getD b (.of (empty 0)))
    cases hc : t.condition with
    | char c => exact .char c
    | set s => exact .set s
    | sigma => exact .sigma
    | check b mode negated =>
      have alive : t.deleted = false := by
        rw [transitions_ofExpr, Array.getElem?_map] at ht
        obtain ⟨x, -, rfl⟩ := Option.map_eq_some_iff.mp ht
        rfl
      have check : (ofExpr tag .nfa e).ChecksAt j b :=
        ⟨t, mem_liveTransitions_iff.mpr ⟨ht, alive⟩, mode, negated, hc⟩
      exact .check mode negated (held (hasBody_of_checksAt sound check))

/-- Bodies that come after those inside them are entered in the table one after another, with tags
that no other automaton has. -/
theorem ledger_of_compileBodies {bodies known : List Expr} (founded : Expr.Founded known bodies)
    (nodup : bodies.Nodup) (sound : ∀ b ∈ bodies, b.fault? = none)
    (old : ∀ b ∈ known, b ∈ table) (new : ∀ b ∈ bodies, b ∉ table) (ledger : Ledger mode table)
    (below : ∀ (b : Expr) (n : Nested), table[b]? = some n → n.automaton.tag < tag)
    (ok : compileBodies mode tag table bodies = .ok table') :
    Ledger mode table' ∧ table.KeptIn table' ∧ ∀ b ∈ bodies, b ∈ table' := by
  induction bodies generalizing known table tag with
  | nil =>
    cases ok
    exact ⟨ledger, fun _ _ => id, by simp⟩
  | cons b rest ih =>
    obtain ⟨inner, founded⟩ := founded
    obtain ⟨fresh, nodup⟩ := List.nodup_cons.mp nodup
    obtain ⟨first, others⟩ := List.forall_mem_cons.mp sound
    obtain ⟨g, compiled, ok⟩ := bind_eq_ok.mp ok
    obtain ⟨furnished, tagged⟩ := furnished_of_compileWith first
      (fun c has => old c (inner (Expr.mem_bodiesIn.mpr has))) compiled
    have unknown : table[b]? = none :=
      Std.HashMap.getElem?_eq_none (new b List.mem_cons_self)
    obtain ⟨ledger', kept⟩ := ledger.insert unknown furnished fun c m held =>
      tagged ▸ Nat.ne_of_lt (below c m held)
    have entered (c : Expr) : c ∈ table.insert b (.of g) ↔ c = b ∨ c ∈ table := by
      rw [Std.HashMap.mem_insert, beq_iff_eq, eq_comm]
    have old' : ∀ c ∈ b :: known, c ∈ table.insert b (.of g) := by
      intro c hc
      exact (entered c).mpr ((List.mem_cons.mp hc).imp_right (old c))
    have new' : ∀ c ∈ rest, c ∉ table.insert b (.of g) := by
      intro c hc held
      rcases (entered c).mp held with rfl | held
      · exact fresh hc
      · exact new c (List.mem_cons_of_mem b hc) held
    have below' : ∀ (c : Expr) (n : Nested), (table.insert b (.of g))[c]? = some n →
        n.automaton.tag < tag + 1 := by
      intro c n held
      rcases held_of_insert held with ⟨-, rfl⟩ | old
      · exact tagged ▸ Nat.lt_succ_self _
      · exact Nat.lt_succ_of_lt (below c n old)
    obtain ⟨final, kept', later⟩ := ih founded nodup others old' new' ledger' below' ok
    refine ⟨final, kept.trans kept', List.forall_mem_cons.mpr ⟨?_, later⟩⟩
    have held : table'[b]? = some (.of g) := kept' _ _ (by simp)
    exact Std.HashMap.mem_iff_isSome_getElem?.mpr (by rw [held]; rfl)

theorem exists_ledger_of_compile (ok : compile tag mode e = .ok A) :
    ∃ table, Ledger mode table ∧ Furnished table mode e A := by
  obtain ⟨sound, table, compiled, ok⟩ := of_compile_ok ok
  have none : Ledger mode ∅ := ⟨by simp, by simp⟩
  obtain ⟨ledger, -, held⟩ := ledger_of_compileBodies (Expr.founded_bodies e) (nodup_distinct _)
    (fun b => fault?_of_mem_bodies sound) (by simp) (by simp) none (by simp) compiled
  have known (b : Expr) (has : e.HasBody b) : b ∈ table :=
    held b (mem_distinct.mpr (Expr.mem_bodiesIn.mpr has))
  exact ⟨table, ledger, (furnished_of_compileWith sound known ok).1⟩

end

end Graph

end PatternAutomata
