import PatternAutomata.Search.Reach
import PatternAutomata.Proofs.CharSets
import PatternAutomata.Proofs.Intact
import Mathlib.Logic.Relation

/-!
# Runs

A configuration is a state together with the text that is still to be read. One move follows a
transition, and a run is any number of moves. `accepts_iff` states that the ends an automaton can
accept at are the ends of its runs, and `IsExtreme` says which of them a search asks for.
-/
namespace PatternAutomata

namespace Condition

variable {ν : Type}

/-- The condition holds in front of the first text, and the second one is left afterwards. -/
def Leads (probe : Probe ν) : Condition ν → List Char → List Char → Prop
  | char c, u, v => u = c :: v
  | set s, u, v => ∃ c ∈ s, u = c :: v
  | sigma, u, v => u = v
  | check nested mode negated, u, v => u = v ∧ probe nested mode u = .ok !negated

theorem Leads.suffix {probe : Probe ν} {c : Condition ν} {u v : List Char}
    (h : c.Leads probe u v) : v <:+ u := by
  cases c with
  | char c => exact ⟨[c], h.symm⟩
  | set s =>
    obtain ⟨c, _, rfl⟩ := h
    exact ⟨[c], rfl⟩
  | sigma => exact h ▸ List.suffix_rfl
  | check nested mode negated => exact h.1 ▸ List.suffix_rfl

theorem leads_ofSet {probe : Probe ν} {s : CharSet} {u v : List Char} :
    (ofSet s : Condition ν).Leads probe u v ↔ ∃ c ∈ s, u = c :: v := by
  unfold ofSet
  split
  · next c hc =>
    have only := CharSet.single?_eq_some_iff.mp hc
    simp [Leads, only]
  · exact Iff.rfl

theorem isConsuming_ofSet (s : CharSet) : (ofSet s : Condition ν).isConsuming = true := by
  unfold ofSet
  split <;> rfl

theorem isConsuming_eq (c : Condition ν) : c.isConsuming = c.charSet?.isSome := by
  cases c <;> rfl

theorem isConsuming_of_charSet {c : Condition ν} {s : CharSet} (h : c.charSet? = some s) :
    c.isConsuming = true := by
  rw [isConsuming_eq, h]
  rfl

theorem isSigma_of_consuming {c : Condition ν} (h : c.isConsuming = true) : c.isSigma = false := by
  cases c with
  | char c => rfl
  | set s => rfl
  | sigma => cases h
  | check nested mode negated => rfl

theorem leads_of_isSigma {probe : Probe ν} {c : Condition ν} (h : c.isSigma = true)
    {u v : List Char} : c.Leads probe u v ↔ u = v := by
  cases c with
  | char c => cases h
  | set s => cases h
  | sigma => exact Iff.rfl
  | check nested mode negated => cases h

/-- A consuming condition leads past one character of its set. -/
theorem leads_iff_of_charSet {probe : Probe ν} {c : Condition ν} {s : CharSet}
    (h : c.charSet? = some s) {u v : List Char} : c.Leads probe u v ↔ ∃ x ∈ s, u = x :: v := by
  cases c with
  | char c =>
    cases h
    simp [Leads]
  | set s =>
    cases h
    exact Iff.rfl
  | sigma => cases h
  | check nested mode negated => cases h

/-- A step succeeds where the condition leads on, and it keeps count of what it consumes. -/
theorem step_eq_some_iff {probe : Probe ν} {c : Condition ν} {p q : Place} :
    c.step probe p = .ok (some q) ↔ c.isSigma = false ∧ c.Leads probe p.rest q.rest ∧
      q.pos + q.rest.length = p.pos + p.rest.length := by
  obtain ⟨pos, rest⟩ := p
  obtain ⟨pos', rest'⟩ := q
  cases c with
  | char c =>
    cases rest with
    | nil => simp [step, Leads]
    | cons d rest =>
      simp only [step, isSigma, Leads, Except.ok.injEq, Option.ite_none_right_eq_some,
        Option.some.injEq, Place.mk.injEq, List.cons.injEq, true_and]
      constructor
      · rintro ⟨rfl, rfl, rfl⟩
        exact ⟨⟨rfl, rfl⟩, by simp; omega⟩
      · rintro ⟨⟨rfl, rfl⟩, h⟩
        simp at h
        exact ⟨rfl, by omega, rfl⟩
  | set s =>
    cases rest with
    | nil => simp [step, Leads]
    | cons d rest =>
      simp only [step, isSigma, Leads, Except.ok.injEq, Option.ite_none_right_eq_some,
        Option.some.injEq, Place.mk.injEq, List.cons.injEq, true_and, CharSet.contains_iff]
      constructor
      · rintro ⟨hd, rfl, rfl⟩
        exact ⟨⟨d, hd, rfl, rfl⟩, by simp; omega⟩
      · rintro ⟨⟨c, hc, rfl, rfl⟩, h⟩
        simp at h
        exact ⟨hc, by omega, rfl⟩
  | sigma => simp [step, isSigma]
  | check nested mode negated =>
    simp only [step, isSigma, Leads, true_and]
    cases h : probe nested mode rest with
    | error e => simp
    | ok found =>
      simp only [Except.ok.injEq, Option.ite_none_right_eq_some, Option.some.injEq, Place.mk.injEq]
      constructor
      · rintro ⟨hf, rfl, rfl⟩
        refine ⟨⟨rfl, ?_⟩, rfl⟩
        cases found <;> cases negated <;> simp at hf ⊢
      · rintro ⟨⟨rfl, hf⟩, hp⟩
        subst hf
        exact ⟨by cases negated <;> rfl, by omega, rfl⟩

theorem step_of_leads {probe : Probe ν} {c : Condition ν} {p : Place} {v : List Char}
    (free : c.isSigma = false) (leads : c.Leads probe p.rest v) :
    c.step probe p = .ok (some ⟨p.pos + p.rest.length - v.length, v⟩) := by
  have len := leads.suffix.length_le
  apply step_eq_some_iff.mpr
  refine ⟨free, leads, ?_⟩
  simp only
  omega

/-- The nested automaton of a check answers everywhere in a window. -/
def Answers (probe : Probe ν) (window : List Char) (c : Condition ν) : Prop :=
  ∀ nested mode negated, c = check nested mode negated →
    ∀ u, u <:+ window → ∃ found, probe nested mode u = .ok found

theorem answers_of_consuming {probe : Probe ν} {window : List Char} {c : Condition ν}
    (h : c.isConsuming = true) : c.Answers probe window := by
  intro nested mode negated hc
  rw [hc] at h
  cases h

theorem Answers.step {probe : Probe ν} {window : List Char} {c : Condition ν}
    (h : c.Answers probe window) (free : c.isSigma = false) {p : Place} (hp : p.rest <:+ window) :
    ∃ q, c.step probe p = .ok q := by
  cases c with
  | char c => cases hr : p.rest <;> simp [Condition.step, hr]
  | set s => cases hr : p.rest <;> simp [Condition.step, hr]
  | sigma => cases free
  | check nested mode negated =>
    obtain ⟨found, hf⟩ := h nested mode negated rfl p.rest hp
    exact ⟨_, by rw [Condition.step, hf]⟩

/-- A step of a condition other than sigma fails only if a nested automaton does. -/
theorem check_of_step {probe : Probe ν} {c : Condition ν} {p : Place} {e : SearchError}
    (free : c.isSigma = false) (h : c.step probe p = .error e) :
    ∃ nested mode negated e', c = check nested mode negated ∧
      probe nested mode p.rest = .error e' := by
  cases c with
  | char c => cases hr : p.rest <;> simp [step, hr] at h
  | set s => cases hr : p.rest <;> simp [step, hr] at h
  | sigma => cases free
  | check nested mode negated =>
    cases hp : probe nested mode p.rest with
    | ok found => simp [step, hp] at h
    | error e' => exact ⟨nested, mode, negated, e', rfl, hp⟩

end Condition

/-- The result is none if nothing has the property, and otherwise the least or the greatest number
that has it. -/
def IsExtreme (earliest : Bool) (P : Nat → Prop) : Option Nat → Prop
  | none => ∀ n, ¬ P n
  | some n => P n ∧ ∀ m, P m → if earliest then n ≤ m else m ≤ n

theorem IsExtreme.unique {earliest : Bool} {P : Nat → Prop} {a b : Option Nat}
    (ha : IsExtreme earliest P a) (hb : IsExtreme earliest P b) : a = b := by
  cases a with
  | none =>
    cases b with
    | none => rfl
    | some n => exact absurd hb.1 (ha n)
  | some m =>
    cases b with
    | none => exact absurd ha.1 (hb m)
    | some n =>
      have h := ha.2 n hb.1
      have k := hb.2 m ha.1
      cases earliest <;> simp at h k <;> exact congrArg some (by omega)

/-- A result is extreme if it has the property and bounds everything that has it. -/
theorem IsExtreme.of_bound {earliest : Bool} {P : Nat → Prop} {a : Option Nat}
    (sound : ∀ b, a = some b → P b)
    (bound : ∀ m, P m → ∃ b, a = some b ∧ if earliest then b ≤ m else m ≤ b) :
    IsExtreme earliest P a := by
  cases a with
  | none =>
    intro m hm
    obtain ⟨b, found, -⟩ := bound m hm
    cases found
  | some b =>
    refine ⟨sound b rfl, ?_⟩
    intro m hm
    obtain ⟨b', found, le⟩ := bound m hm
    cases found
    exact le

theorem IsExtreme.congr {earliest : Bool} {P Q : Nat → Prop} (h : ∀ n, P n ↔ Q n)
    {a : Option Nat} (ha : IsExtreme earliest P a) : IsExtreme earliest Q a :=
  (funext fun n => propext (h n) : P = Q) ▸ ha

/-- A map that keeps the order takes what is asked for to what is asked for. -/
theorem IsExtreme.map {earliest : Bool} {P Q : Nat → Prop} {f : Nat → Nat} {n : Option Nat}
    (mono : ∀ {m n}, m ≤ n → f m ≤ f n) (image : ∀ j, P j ↔ ∃ n, Q n ∧ j = f n)
    (h : IsExtreme earliest Q n) : IsExtreme earliest P (n.map f) := by
  cases n with
  | none =>
    intro j hj
    obtain ⟨n, hn, -⟩ := (image j).mp hj
    exact h n hn
  | some n =>
    refine ⟨(image (f n)).mpr ⟨n, h.1, rfl⟩, ?_⟩
    intro j hj
    obtain ⟨m, hm, rfl⟩ := (image j).mp hj
    have order := h.2 m hm
    cases earliest with
    | false => exact mono order
    | true => exact mono order

namespace Graph

variable {ν : Type}

/-- A state, and the text that is still to be read. -/
abbrev Config := Nat × List Char

/-- One transition leads from one configuration to another. -/
def Moves (g : Graph ν) (probe : Probe ν) (a b : Config) : Prop :=
  ∃ t ∈ g.outgoing a.1, t.target = b.1 ∧ t.condition.Leads probe a.2 b.2

/-- Any number of transitions lead from one configuration to another. -/
def Runs (g : Graph ν) (probe : Probe ν) : Config → Config → Prop :=
  Relation.ReflTransGen (g.Moves probe)

theorem Runs.suffix {g : Graph ν} {probe : Probe ν} {a b : Config} (h : g.Runs probe a b) :
    b.2 <:+ a.2 := by
  induction h with
  | refl => exact List.suffix_rfl
  | tail _ move ih =>
    obtain ⟨t, _, _, leads⟩ := move
    exact leads.suffix.trans ih

theorem Runs.isLive {g : Graph ν} (hg : g.Intact) {probe : Probe ν} {a b : Config}
    (h : g.Runs probe a b) (ha : g.IsLive a.1) : g.IsLive b.1 := by
  induction h with
  | refl => exact ha
  | tail _ move _ =>
    obtain ⟨t, ht, e, _⟩ := move
    exact e ▸ hg.isLive_target ht

theorem reaches_iff {g : Graph ν} {probe : Probe ν} {window : List Char} {s : Nat} {p : Place} :
    g.Reaches probe window s p ↔ ∃ i, g.initial = some i ∧
      g.Runs probe (i, window) (s, p.rest) ∧ p.pos + p.rest.length = window.length := by
  constructor
  · intro h
    induction h with
    | start h => exact ⟨_, h, .refl, Nat.zero_add _⟩
    | @silent s p t _ leaves sigma ih =>
      obtain ⟨i, hi, run, len⟩ := ih
      have holds : t.condition.Leads probe p.rest p.rest :=
        (Condition.leads_of_isSigma sigma).mpr rfl
      exact ⟨i, hi, run.tail ⟨t, leaves, rfl, holds⟩, len⟩
    | @step s p t q _ leaves holds ih =>
      obtain ⟨i, hi, run, len⟩ := ih
      obtain ⟨_, leads, same⟩ := Condition.step_eq_some_iff.mp holds
      exact ⟨i, hi, run.tail ⟨t, leaves, rfl, leads⟩, same.trans len⟩
  · rintro ⟨i, hi, run, len⟩
    generalize hb : (s, p.rest) = b at run
    induction run generalizing s p with
    | refl =>
      obtain ⟨pos, rest⟩ := p
      cases hb
      have : pos = 0 := by simpa using len
      exact this ▸ .start hi
    | @tail b c run move ih =>
      subst hb
      obtain ⟨t, ht, rfl, leads⟩ := move
      have len' : b.2.length ≤ window.length := (Runs.suffix run).length_le
      have prev := ih (s := b.1) (p := ⟨window.length - b.2.length, b.2⟩) (by simp; omega) rfl
      cases hs : t.condition.isSigma with
      | true =>
        have same : b.2 = p.rest := (Condition.leads_of_isSigma hs).mp leads
        have := prev.silent ht hs
        have hp : p = ⟨window.length - b.2.length, b.2⟩ := by
          obtain ⟨pos, rest⟩ := p
          simp only [Place.mk.injEq] at same len ⊢
          exact ⟨by rw [same]; omega, same.symm⟩
        exact hp ▸ this
      | false =>
        exact prev.step ht (Condition.step_eq_some_iff.mpr ⟨hs, leads, by simp; omega⟩)

/-- An automaton accepts where a run of it ends in an accepting state. -/
theorem accepts_iff {g : Graph ν} {probe : Probe ν} {window : List Char} {pos : Nat} :
    g.Accepts probe window pos ↔ ∃ i s rest, g.initial = some i ∧
      g.Runs probe (i, window) (s, rest) ∧ g.isAccepting s = true ∧
        pos + rest.length = window.length := by
  constructor
  · rintro ⟨s, p, reaches, accepting, rfl⟩
    obtain ⟨i, hi, run, len⟩ := reaches_iff.mp reaches
    exact ⟨i, s, p.rest, hi, run, accepting, len⟩
  · rintro ⟨i, s, rest, hi, run, accepting, len⟩
    exact ⟨s, ⟨pos, rest⟩, reaches_iff.mpr ⟨i, hi, run, len⟩, accepting, rfl⟩

/-- Started in a state in front of the first text, the automaton can accept and leave the second. -/
def Ends (g : Graph ν) (probe : Probe ν) (s : Nat) (u v : List Char) : Prop :=
  ∃ r, g.Runs probe (s, u) (r, v) ∧ g.isAccepting r = true

theorem accepts_iff_ends {g : Graph ν} {probe : Probe ν} {window : List Char} {pos : Nat} :
    g.Accepts probe window pos ↔ ∃ i v, g.initial = some i ∧ g.Ends probe i window v ∧
      pos + v.length = window.length := by
  rw [accepts_iff]
  constructor
  · rintro ⟨i, s, v, hi, run, accepting, len⟩
    exact ⟨i, v, hi, ⟨s, run, accepting⟩, len⟩
  · rintro ⟨i, v, hi, ⟨s, run, accepting⟩, len⟩
    exact ⟨i, s, v, hi, run, accepting, len⟩

/-- What the initial state accepts tells the ends that the automaton can accept at. -/
theorem accepts_iff_of_ends {g : Graph ν} {probe : Probe ν} {window : List Char} {i pos : Nat}
    {R : List Char → Prop} (initial : g.initial = some i)
    (same : ∀ v, g.Ends probe i window v ↔ R v) :
    g.Accepts probe window pos ↔ ∃ v, R v ∧ pos + v.length = window.length := by
  simp only [accepts_iff_ends, initial, Option.some.injEq, exists_and_left, exists_eq_left', same]

/-- Automata accept alike if their initial states do. -/
theorem accepts_congr {μ : Type} {g : Graph ν} {h : Graph μ} {probe : Probe ν} {probe' : Probe μ}
    {i j : Nat} (hi : g.initial = some i) (hj : h.initial = some j)
    (same : ∀ u v, g.Ends probe i u v ↔ h.Ends probe' j u v) {window : List Char} {pos : Nat} :
    g.Accepts probe window pos ↔ h.Accepts probe' window pos :=
  (accepts_iff_of_ends hi (same window)).trans (accepts_iff_of_ends hj fun _ => Iff.rfl).symm

/-- All nested automata answer everywhere in a window. -/
def Answers (g : Graph ν) (probe : Probe ν) (window : List Char) : Prop :=
  ∀ s, ∀ t ∈ g.outgoing s, t.condition.Answers probe window

theorem answers_of_unchecked {g : Graph ν} (hg : g.Intact)
    (h : ∀ t ∈ g.liveTransitions, ∀ nested mode negated, t.1.condition ≠ .check nested mode negated)
    (probe : Probe ν) (window : List Char) : g.Answers probe window := by
  intro s t ht nested mode negated hc
  obtain ⟨n, hn⟩ := hg.mem_liveTransitions ht
  exact absurd hc (h _ hn nested mode negated)

end Graph

end PatternAutomata
