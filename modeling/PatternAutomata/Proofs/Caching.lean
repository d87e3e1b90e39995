import PatternAutomata.Proofs.Lockstep

/-!
# The table of a compilation in one pass

A compilation in one pass keeps its table while it recurses: a body is looked up, compiled with the
table as it is then, and entered when that is done. A pass does to its workshop what the
construction of the expression does to a draft (`follows_pass`), with nested automata from the table
in the place of bodies; in the meantime the table only grows, by bodies of the expression with new
tags (`Grows`), so a body is not entered on the way to its own automaton. The table is therefore a
ledger in the end, as the one of `Graph.compile` is, and either way bodies are compiled once
(`Graph.compile_shares`).
-/
namespace PatternAutomata

namespace OnePass

open PatternAutomata.Graph

namespace Workshop

/-- The table of a workshop is a ledger of well-formed bodies, and no automaton in it has the next
tag or a later one. -/
structure Orderly (mode : Mode) (w : Workshop) : Prop where
  wellFormed : ∀ b ∈ w.known, b.fault? = none
  ledger : Ledger mode w.known
  below : ∀ (b : Expr) (n : Nested), w.known[b]? = some n → n.automaton.tag < w.nextTag

theorem Orderly.of_automaton {mode : Mode} {w : Workshop} {A : Automaton} (h : w.Orderly mode) :
    Orderly mode { w with automaton := A } :=
  ⟨h.wellFormed, h.ledger, h.below⟩

/-- The transitions of the automaton are the edges of a draft, with nested automata from the
table. The bodies that the draft asks for have a property. -/
structure Mirrors (P : Expr → Prop) (w : Workshop) (d : Draft) : Prop where
  states : w.automaton.states.size = d.size
  size : w.automaton.transitions.size = d.edges.size
  furnished : ∀ (i : Nat) x t, d.edges[i]? = some x → w.automaton.transitions[i]? = some t →
    x.condition.Furnished w.known t.condition ∧ t.deleted = false
  asks : ∀ x ∈ d.edges, ∀ b mode negated, x.condition = .check b mode negated → P b

/-- What happens to a workshop while bodies with a property are compiled. What is entered in the
table has a new tag. -/
structure Grows (P : Expr → Prop) (w w' : Workshop) : Prop where
  tag : w'.automaton.tag = w.automaton.tag
  kept : w.known.KeptIn w'.known
  nextTag : w.nextTag ≤ w'.nextTag
  entries : ∀ (b : Expr) (n : Nested), w'.known[b]? = some n →
    w.known[b]? = some n ∨ P b ∧ w.nextTag ≤ n.automaton.tag

theorem Grows.refl (P : Expr → Prop) (w : Workshop) : w.Grows P w :=
  ⟨rfl, fun _ _ => id, Nat.le_refl _, fun _ _ => .inl⟩

theorem Grows.trans {P : Expr → Prop} {w w' w'' : Workshop} (h : w.Grows P w')
    (k : w'.Grows P w'') : w.Grows P w'' := by
  refine ⟨k.tag.trans h.tag, h.kept.trans k.kept, h.nextTag.trans k.nextTag, fun b n held => ?_⟩
  rcases k.entries b n held with held | ⟨asked, le⟩
  · exact h.entries b n held
  · exact .inr ⟨asked, h.nextTag.trans le⟩

end Workshop

open Workshop

/-- What changes the automaton only. -/
theorem Workshop.Grows.of_automaton {P : Expr → Prop} {w : Workshop} {A : Automaton}
    (tag : A.tag = w.automaton.tag) : w.Grows P { w with automaton := A } :=
  ⟨tag, fun _ _ => id, Nat.le_refl _, fun _ _ => .inl⟩

/-- What holds on the way from a workshop to another one, beside which a draft grows. -/
structure Follows (mode : Mode) (P : Expr → Prop) (w₀ w : Workshop) (d : Draft) : Prop where
  grows : w₀.Grows P w
  orderly : w.Orderly mode
  mirrors : w.Mirrors P d

section

variable {mode : Mode} {P : Expr → Prop} {w₀ : Workshop}

theorem follows_newState :
    Lockstep (Follows mode P w₀) newState Fragment.newState StateId.index := by
  rintro w d ⟨grows, orderly, mirrors⟩ s w' ok
  cases ok
  refine ⟨mirrors.states.symm, grows.trans (.of_automaton rfl), orderly.of_automaton, ?_,
    mirrors.size, mirrors.furnished, mirrors.asks⟩
  change (w.automaton.addBareState false).states.size = d.size + 1
  simp [Graph.addBareState, mirrors.states]

theorem follows_join {c : Condition Expr} {c' : Condition Nested}
    (filled : c.Furnished w₀.known c')
    (asked : ∀ b mode negated, c = .check b mode negated → P b) :
    EdgeStep (Follows mode P w₀) c c' := by
  rintro source target w d ⟨grows, orderly, mirrors⟩ u w' ok
  obtain ⟨-, -, rfl⟩ := join_ok ok
  refine ⟨rfl, grows.trans (.of_automaton rfl), orderly.of_automaton, ?_, ?_, ?_, ?_⟩
  · change (w.automaton.connect _).states.size = d.size
    simpa [Graph.connect] using mirrors.states
  · change (w.automaton.transitions.push _).size = (d.edges.push _).size
    simp [mirrors.size]
  · intro i x t hx ht
    change (d.edges.push _)[i]? = some x at hx
    change (w.automaton.transitions.push _)[i]? = some t at ht
    rw [Array.getElem?_push] at hx ht
    rw [mirrors.size] at ht
    split at hx
    · next last =>
      rw [if_pos last] at ht
      cases hx
      cases ht
      exact ⟨filled.mono grows.kept, rfl⟩
    · next before =>
      rw [if_neg before] at ht
      exact mirrors.furnished i x t hx ht
  · intro x hx
    rcases Array.mem_push.mp hx with old | rfl
    · exact mirrors.asks x old
    · exact asked

theorem steady_follows : Steady (Follows mode P w₀) where
  newState := follows_newState
  char c := follows_join (.char c) (by rintro _ _ _ ⟨⟩)
  set s := follows_join (.set s) (by rintro _ _ _ ⟨⟩)
  sigma := follows_join .sigma (by rintro _ _ _ ⟨⟩)

/-- The automaton of an expression nests what is known in the end for the bodies of the
expression. -/
theorem furnished_of_automatonOf {w made : Workshop} {e : Expr} {A : Automaton}
    (follows : Lockstep (Follows mode e.HasBody w.begun) (pass mode e) (Fragment.ofExpr mode e)
      Part.fragment)
    (orderly : w.Orderly mode) (ok : (automatonOf mode (pass mode e)).run w = .ok (A, made)) :
    Furnished made.known mode e A ∧ A.tag = w.nextTag ∧ e.fault? = none ∧ made.Orderly mode ∧
      w.begun.Grows e.HasBody made := by
  obtain ⟨f, built, finished⟩ := of_automatonOf_ok ok
  have begun : w.begun.Orderly mode := ⟨orderly.wellFormed, orderly.ledger,
    fun b n held => Nat.lt_succ_of_lt (orderly.below b n held)⟩
  have mirrors : w.begun.Mirrors e.HasBody ⟨0, #[]⟩ := ⟨rfl, rfl, by simp, by simp⟩
  obtain ⟨-, grows, orderly', mirrors'⟩ :=
    follows w.begun ⟨0, #[]⟩ ⟨.refl _ _, begun, mirrors⟩ f made built
  have outcome := constructs_pass mode e w.begun ⟨.empty _, orderly.wellFormed⟩
  cases fault : e.fault? with
  | some err =>
    rw [fault] at outcome
    cases built.symm.trans outcome
  | none =>
    rw [fault] at outcome
    obtain ⟨f', made', built', keeps, own⟩ := outcome
    cases built.symm.trans built'
    obtain ⟨g, intact, initial, tag, transitions, finished'⟩ := exists_finish_eq keeps.sound own
    have prepared : g.prepare g.tag mode = .ok A := (finished' mode).symm.trans finished
    have tagged : A.tag = w.nextTag := (tag_of_prepare rfl prepared).trans (tag.trans grows.tag)
    refine ⟨⟨fun n hn => ?_, ?_⟩, tagged, rfl, orderly', grows⟩
    · obtain ⟨t, i, live, mode', negated, hc⟩ :=
        mem_nested_iff.mp (mem_nested_of_prepare intact initial prepared hn)
      have ht := transitions ▸ (mem_liveTransitions_iff.mp live).1
      have lt := mirrors'.size ▸ (Array.getElem?_eq_some_iff.mp ht).1
      have hx := Array.getElem?_eq_getElem lt
      have furnished := (mirrors'.furnished i _ t hx ht).1
      rw [hc] at furnished
      generalize asked : Edge.condition _ = c at furnished
      cases furnished with
      | check _ _ held =>
        exact ⟨_, mirrors'.asks _ (Array.getElem_mem lt) _ _ _ asked, held⟩
    · rintro rfl
      cases prepared
      refine ⟨?_, fun i t t' ht ht' => ?_⟩
      · rw [transitions, mirrors'.size, transitions_ofExpr, Array.size_map]
      · rw [transitions_ofExpr, Array.getElem?_map] at ht
        obtain ⟨x, hx, rfl⟩ := Option.map_eq_some_iff.mp ht
        exact mirrors'.furnished i x t' hx (transitions ▸ ht')

/-- A body that is not known yet is not compiled on the way to its own automaton. -/
theorem unknown_of_automatonOf {w made : Workshop} {b : Expr} (new : w.known[b]? = none)
    (grows : w.begun.Grows b.HasBody made) : made.known[b]? = none := by
  cases held : made.known[b]? with
  | none => rfl
  | some n =>
    rcases grows.entries b n held with old | ⟨has, -⟩
    · cases new.symm.trans old
    · exact absurd has b.not_hasBody_self

/-- An automaton that is entered in the table has a tag that no other automaton there has. -/
theorem grows_of_automatonOf {w made : Workshop} {b : Expr} {A : Automaton}
    (follows : Lockstep (Follows mode b.HasBody w.begun) (pass mode b) (Fragment.ofExpr mode b)
      Part.fragment)
    (asked : P b) (inner : ∀ c, b.HasBody c → P c) (orderly : w.Orderly mode)
    (new : w.known[b]? = none) (ok : (automatonOf mode (pass mode b)).run w = .ok (A, made)) :
    Orderly mode ⟨w.automaton, made.known.insert b (.of A), made.nextTag⟩ ∧
      w.Grows P ⟨w.automaton, made.known.insert b (.of A), made.nextTag⟩ := by
  obtain ⟨furnished, tag, sound, orderly', grows⟩ :=
    furnished_of_automatonOf follows orderly ok
  have later : w.nextTag + 1 ≤ made.nextTag := grows.nextTag
  have other : ∀ (c : Expr) (m : Nested), made.known[c]? = some m → m.automaton.tag ≠ A.tag := by
    intro c m held
    rcases grows.entries c m held with old | ⟨-, after⟩
    · exact tag ▸ Nat.ne_of_lt (orderly.below c m old)
    · exact tag ▸ Nat.ne_of_gt after
  obtain ⟨ledger, kept⟩ :=
    orderly'.ledger.insert (unknown_of_automatonOf new grows) furnished other
  refine ⟨⟨?_, ledger, ?_⟩, rfl, grows.kept.trans kept, Nat.le_of_succ_le later, ?_⟩
  · intro c hc
    rcases Std.HashMap.mem_insert.mp hc with same | old
    · exact eq_of_beq same ▸ sound
    · exact orderly'.wellFormed c old
  · intro c n held
    rcases held_of_insert held with ⟨-, rfl⟩ | old
    · exact tag ▸ later
    · exact orderly'.below c n old
  · intro c n held
    rcases held_of_insert held with ⟨rfl, rfl⟩ | old
    · exact .inr ⟨asked, tag.ge⟩
    · rcases grows.entries c n old with older | ⟨has, after⟩
      · exact .inl older
      · exact .inr ⟨inner c has, Nat.le_of_lt after⟩

theorem follows_lookahead {b : Expr} (follows : ∀ w,
      Lockstep (Follows mode b.HasBody w) (pass mode b) (Fragment.ofExpr mode b) Part.fragment)
    (asked : P b) (inner : ∀ c, b.HasBody c → P c) :
    Looks (Follows mode P w₀) (fun b => once mode b (pass mode b)) mode b := by
  rintro negated w d ⟨grows, orderly, mirrors⟩ f w' ok
  rw [StateT.run_bind] at ok
  have filled {w : Workshop} {n : Nested} (known : w.known[b]? = some n) :
      Lockstep (Follows mode P w) (single (.check n mode negated))
        (Fragment.single (.check b mode negated)) Part.fragment :=
    steady_follows.single
      (follows_join (.check mode negated known) (by rintro _ _ _ ⟨⟩; exact asked))
  -- what the check carries is in the table only once the body has been looked up or compiled
  cases known : w.known[b]? with
  | some n =>
    rw [once_of_known known] at ok
    obtain ⟨same, after⟩ := filled known w d ⟨.refl P w, orderly, mirrors⟩ f w' ok
    exact ⟨same, grows.trans after.grows, after.orderly, after.mirrors⟩
  | none =>
    rw [once_of_new known] at ok
    obtain ⟨⟨n, w₁⟩, entered, ok⟩ := bind_eq_ok.mp ok
    obtain ⟨⟨A, made⟩, compiled, ⟨⟩⟩ := bind_eq_ok.mp entered
    obtain ⟨orderly', grows'⟩ := grows_of_automatonOf (follows _) asked inner orderly known compiled
    have mirrors' : Mirrors P ⟨w.automaton, made.known.insert b (.of A), made.nextTag⟩ d :=
      ⟨mirrors.states, mirrors.size,
        fun i x t hx ht => (mirrors.furnished i x t hx ht).imp_left (·.mono grows'.kept),
        mirrors.asks⟩
    have held : (made.known.insert b (.of A))[b]? = some (.of A) := by simp
    obtain ⟨same, after⟩ := filled held _ d ⟨.refl P _, orderly', mirrors'⟩ f w' ok
    exact ⟨same, (grows.trans grows').trans after.grows, after.orderly, after.mirrors⟩

end

-- `P` holds of the bodies of the whole expression; the automaton of a body starts again with the
-- bodies of that body, and the body itself is not among them
theorem follows_pass (mode : Mode) (e : Expr) (P : Expr → Prop) (bodies : ∀ b, e.HasBody b → P b)
    (w₀ : Workshop) :
    Lockstep (Follows mode P w₀) (pass mode e) (Fragment.ofExpr mode e) Part.fragment := by
  rw [← passWith_once]
  refine lockstep_pass steady_follows e fun b has => ?_
  have smaller : sizeOf b < sizeOf e := has.sizeOf_lt
  exact follows_lookahead (follows_pass mode b b.HasBody fun _ => id) (bodies b has)
    fun c inner => bodies c (has.trans inner)
termination_by sizeOf e

theorem exists_ledger_of_compile {tag : Nat} {mode : Mode} {e : Expr} {A : Automaton}
    (ok : compile tag mode e = .ok A) : ∃ table, Ledger mode table ∧ Furnished table mode e A := by
  obtain ⟨made, compiled⟩ := exists_automatonOf_of_compile ok
  have orderly : Orderly mode ⟨.empty 0, ∅, tag⟩ := ⟨by simp, ⟨by simp, by simp⟩, by simp⟩
  obtain ⟨furnished, -, -, orderly', -⟩ := furnished_of_automatonOf
    (follows_pass mode e e.HasBody (fun _ => id) _) orderly compiled
  exact ⟨_, orderly'.ledger, furnished⟩

end OnePass

namespace Graph

variable {tag : Nat} {mode : Mode} {e : Expr} {A : Automaton}

/-- A body is compiled once. An automaton that is left as it was constructed carries nested automata
where the construction asks for bodies, at any depth, and two of them are the same exactly if their
bodies are. In every mode, there are not more nested automata than bodies. -/
theorem compile_shares (ok : compile tag mode e = .ok A ∨ OnePass.compile tag mode e = .ok A) :
    (mode = .nfa → (∀ path, (∃ n, A.Carries path n) ↔ ∃ b, e.Asks path b) ∧
      ∀ path path' n m b c, A.Carries path n → A.Carries path' m → e.Asks path b →
        e.Asks path' c → (n = m ↔ b = c) ∧ (n.automaton.tag = m.automaton.tag ↔ b = c)) ∧
      {n | ∃ path, A.Carries path n}.encard ≤ {b | e.HasBody b}.encard := by
  obtain ⟨table, ledger, furnished⟩ : ∃ table, Ledger mode table ∧ Furnished table mode e A :=
    ok.elim exists_ledger_of_compile OnePass.exists_ledger_of_compile
  refine ⟨?_, ledger.encard_carries_le furnished⟩
  rintro rfl
  refine ⟨fun path => ⟨?_, ?_⟩, fun path path' n m b c => ledger.carries_iff furnished⟩
  · rintro ⟨n, carries⟩
    exact (ledger.exists_asks furnished carries).imp fun b asks => asks.1
  · rintro ⟨b, asks⟩
    exact ledger.exists_carries furnished asks

/-- A body with a lookahead of its own. -/
def answer : Expr := .sequence [.literal ['y'], .lookahead (.literal ['x']) true]

/-- The body of the lookahead inside the second body is the first body. -/
def echo : Expr := .sequence [.lookahead (.literal ['x']) false, .lookahead answer false]

/-- What the first transition of the automaton carries is also carried inside the second one, and
there is one more nested automaton. -/
theorem compile_shares_echo : ∃ A, compile 0 .nfa echo = .ok A ∧
    (∃ n, A.Carries [0] n ∧ A.Carries [1, 1] n) ∧ {n | ∃ path, A.Carries path n}.encard ≤ 2 := by
  obtain ⟨A, -, ok, -⟩ := compile_spec (e := echo) (by decide) 0 .nfa
  obtain ⟨carried, bounded⟩ := compile_shares (.inl ok)
  obtain ⟨asked, same⟩ := carried rfl
  have first : echo.Asks [0] (.literal ['x']) :=
    .here ⟨_, mem_liveTransitions_iff.mpr ⟨rfl, rfl⟩, .nfa, false, rfl⟩
  have outer : (ofExpr 0 .nfa echo).ChecksAt 1 answer :=
    ⟨_, mem_liveTransitions_iff.mpr ⟨rfl, rfl⟩, .nfa, false, rfl⟩
  have inner : (ofExpr 0 .nfa answer).ChecksAt 1 (.literal ['x']) :=
    ⟨_, mem_liveTransitions_iff.mpr ⟨rfl, rfl⟩, .nfa, true, rfl⟩
  obtain ⟨n, carries⟩ := (asked [0]).mpr ⟨_, first⟩
  obtain ⟨m, carries'⟩ := (asked [1, 1]).mpr ⟨_, .inside outer (.here inner)⟩
  cases (same _ _ n m _ _ carries carries' first (.inside outer (.here inner))).1.mpr rfl
  refine ⟨A, ok, ⟨n, carries, carries'⟩, bounded.trans ?_⟩
  have bodies : {b | echo.HasBody b} ⊆ {.literal ['x'], answer} := by
    rintro b ⟨negated, mem⟩
    simp only [echo, answer, Expr.walk, Expr.walkAll] at mem
    grind [answer]
  have pair := Set.encard_insert_le {answer} (.literal ['x'])
  rw [Set.encard_singleton] at pair
  exact (Set.encard_le_encard bodies).trans pair

end Graph

end PatternAutomata
