import PatternAutomata.Construction.Fragment
import PatternAutomata.Expr.Matches
import PatternAutomata.Proofs.Runs

/-!
# Paths through pieces of an automaton

A path follows edges of a list. A piece is a list of edges between states of its own, and what its
paths from the entry to the exit consume is a relation between texts. The laws below say what
becomes of this relation where pieces are put together.
-/
namespace PatternAutomata

theorem iterate_add {α : Type} {R : α → α → Prop} {m n : Nat} {s t : α} :
    Iterate R (m + n) s t ↔ ∃ u, Iterate R m s u ∧ Iterate R n u t := by
  induction m generalizing s with
  | zero => simp [Iterate]
  | succ m ih =>
    rw [Nat.succ_add]
    simp only [Iterate, ih]
    constructor
    · rintro ⟨u, hu, w, hw, ht⟩
      exact ⟨w, ⟨u, hu, hw⟩, ht⟩
    · rintro ⟨w, ⟨u, hu, hw⟩, ht⟩
      exact ⟨u, hu, w, hw, ht⟩

theorem iterate_one {α : Type} {R : α → α → Prop} {s t : α} : Iterate R 1 s t ↔ R s t := by
  simp [Iterate]

theorem iterate_succ {α : Type} {R : α → α → Prop} {n : Nat} {s t : α} :
    Iterate R (n + 1) s t ↔ ∃ u, Iterate R n s u ∧ R u t := by
  simp only [iterate_add, iterate_one]

namespace Fragment

open PatternAutomata.Graph (Config)

variable {probe : Probe Expr} {E F G : List (Edge Expr)} {a b : Config}

/-- One of the edges leads from one configuration to another. -/
def Follows (probe : Probe Expr) (E : List (Edge Expr)) (a b : Config) : Prop :=
  ∃ e ∈ E, e.source = a.1 ∧ e.target = b.1 ∧ e.condition.Leads probe a.2 b.2

/-- Any number of edges lead from one configuration to another. -/
def Path (probe : Probe Expr) (E : List (Edge Expr)) : Config → Config → Prop :=
  Relation.ReflTransGen (Follows probe E)

/-- Edges lead from one state to another, if their conditions are left aside. -/
def Links (E : List (Edge Expr)) : Nat → Nat → Prop :=
  Relation.ReflTransGen fun s t => ∃ e ∈ E, e.source = s ∧ e.target = t

/-- The edges join states from `lo` on and below `hi`. -/
def Within (lo hi : Nat) (E : List (Edge Expr)) : Prop :=
  ∀ e ∈ E, (lo ≤ e.source ∧ e.source < hi) ∧ lo ≤ e.target ∧ e.target < hi

theorem Path.mono (sub : E ⊆ F) (path : Path probe E a b) : Path probe F a b := by
  refine Relation.ReflTransGen.mono ?_ a b path
  intro c d follows
  obtain ⟨e, he, follows⟩ := follows
  exact ⟨e, sub he, follows⟩

theorem Links.mono (sub : E ⊆ F) {s t : Nat} (links : Links E s t) : Links F s t := by
  refine Relation.ReflTransGen.mono ?_ s t links
  intro c d joined
  obtain ⟨e, he, joined⟩ := joined
  exact ⟨e, sub he, joined⟩

theorem Path.edge {e : Edge Expr} (he : e ∈ E) {u v : List Char}
    (leads : e.condition.Leads probe u v) : Path probe E (e.source, u) (e.target, v) :=
  .single ⟨e, he, rfl, rfl, leads⟩

theorem Links.edge {e : Edge Expr} (he : e ∈ E) : Links E e.source e.target :=
  .single ⟨e, he, rfl, rfl⟩

theorem Path.sigma {s t : Nat} (he : ⟨s, t, .sigma⟩ ∈ E) (u : List Char) :
    Path probe E (s, u) (t, u) :=
  Path.edge he rfl

/-- A path does not leave what its edges do not leave. -/
theorem Path.stays {P : Nat → List Char → Prop} (path : Path probe E a b) (start : P a.1 a.2)
    (closed : ∀ e ∈ E, ∀ u v, P e.source u → e.condition.Leads probe u v → P e.target v) :
    P b.1 b.2 := by
  induction path with
  | refl => exact start
  | @tail c d _ follows ih =>
    obtain ⟨e, he, source, target, leads⟩ := follows
    exact target ▸ closed e he c.2 d.2 (source ▸ ih) leads

theorem Within.mono {lo hi hi' : Nat} (h : Within lo hi E) (le : hi ≤ hi') : Within lo hi' E := by
  intro e he
  have := h e he
  omega

/-- The edges `G` are those of two pieces, `E` below `mid` and `F` from there on, and one edge from
a state `t` of the first one to a state `x` of the second one. -/
structure Extended (lo mid hi t x : Nat) (c : Condition Expr) (E F G : List (Edge Expr)) :
    Prop where
  first : Within lo mid E
  second : Within mid hi F
  tail : lo ≤ t ∧ t < mid
  next : mid ≤ x ∧ x < hi
  mem : ∀ e, e ∈ G ↔ e ∈ E ∨ e ∈ F ∨ e = ⟨t, x, c⟩

namespace Extended

variable {lo mid hi t x s y : Nat} {c : Condition Expr} {u v : List Char}

theorem left (h : Extended lo mid hi t x c E F G) : E ⊆ G := fun e he => (h.mem e).mpr (.inl he)

theorem right (h : Extended lo mid hi t x c E F G) : F ⊆ G :=
  fun e he => (h.mem e).mpr (.inr (.inl he))

theorem bridge (h : Extended lo mid hi t x c E F G) : ⟨t, x, c⟩ ∈ G :=
  (h.mem _).mpr (.inr (.inr rfl))

theorem within (h : Extended lo mid hi t x c E F G) : Within lo hi G := by
  intro e he
  have tail := h.tail
  have next := h.next
  rcases (h.mem e).mp he with he | he | rfl
  · have := h.first e he
    omega
  · have := h.second e he
    omega
  · simp only
    omega

/-- A path from the first piece stays there or crosses over. -/
theorem crossing (h : Extended lo mid hi t x c E F G) (hs : s < mid)
    (path : Path probe G (s, u) (y, v)) :
    (y < mid → Path probe E (s, u) (y, v)) ∧ (mid ≤ y → ∃ w w', Path probe E (s, u) (t, w) ∧
      c.Leads probe w w' ∧ Path probe F (x, w') (y, v)) := by
  apply path.stays (P := fun y v => (y < mid → Path probe E (s, u) (y, v)) ∧
    (mid ≤ y → ∃ w w', Path probe E (s, u) (t, w) ∧ c.Leads probe w w' ∧
      Path probe F (x, w') (y, v)))
  · exact ⟨fun _ => .refl, fun le => absurd hs (Nat.not_lt.mpr le)⟩
  · intro e he w w' before leads
    rcases (h.mem e).mp he with he | he | rfl
    · have bounds := h.first e he
      refine ⟨fun _ => ?_, fun le => absurd bounds.2.2 (Nat.not_lt.mpr le)⟩
      exact (before.1 bounds.1.2).trans (Path.edge he leads)
    · have bounds := h.second e he
      refine ⟨fun lt => absurd lt (Nat.not_lt.mpr bounds.2.1), fun _ => ?_⟩
      obtain ⟨r, r', first, crossed, second⟩ := before.2 bounds.1.1
      exact ⟨r, r', first, crossed, second.trans (Path.edge he leads)⟩
    · refine ⟨fun lt => absurd lt (Nat.not_lt.mpr h.next.1), fun _ => ?_⟩
      exact ⟨w, w', before.1 h.tail.2, leads, .refl⟩

theorem path_first (h : Extended lo mid hi t x c E F G) (hs : s < mid) (hy : y < mid) :
    Path probe G (s, u) (y, v) ↔ Path probe E (s, u) (y, v) :=
  ⟨fun path => (h.crossing hs path).1 hy, Path.mono h.left⟩

theorem path_second (h : Extended lo mid hi t x c E F G) (hs : s < mid) (hy : mid ≤ y) :
    Path probe G (s, u) (y, v) ↔ ∃ w w', Path probe E (s, u) (t, w) ∧ c.Leads probe w w' ∧
      Path probe F (x, w') (y, v) := by
  constructor
  · intro path
    exact (h.crossing hs path).2 hy
  · rintro ⟨w, w', first, crossed, second⟩
    have step : Path probe G (t, w) (x, w') := Path.edge h.bridge crossed
    exact ((first.mono h.left).trans step).trans (second.mono h.right)

end Extended

/-- One more edge to a state that no edge leaves is the last one of any path. -/
theorem path_closed {t x s y : Nat} {u v : List Char} (dead : ∀ e ∈ E, e.source ≠ x) (ne : t ≠ x)
    (mem : ∀ e, e ∈ G ↔ e ∈ E ∨ e = ⟨t, x, .sigma⟩) :
    Path probe G (s, u) (y, v) ↔
      Path probe E (s, u) (y, v) ∨ y = x ∧ Path probe E (s, u) (t, v) := by
  have sub : E ⊆ G := fun e he => (mem e).mpr (.inl he)
  constructor
  · intro path
    apply path.stays (P := fun y v => Path probe E (s, u) (y, v) ∨
      y = x ∧ Path probe E (s, u) (t, v))
    · exact .inl .refl
    · intro e he w w' before leads
      rcases (mem e).mp he with he | rfl
      · rcases before with path | ⟨at_end, _⟩
        · exact .inl (path.trans (Path.edge he leads))
        · exact absurd at_end (dead e he)
      · cases leads
        rcases before with path | ⟨at_end, _⟩
        · exact .inr ⟨rfl, path⟩
        · exact absurd at_end ne
  · rintro (path | ⟨rfl, path⟩)
    · exact path.mono sub
    · exact (path.mono sub).trans (Path.sigma ((mem _).mpr (.inr rfl)) v)

/-- A piece of an automaton between states from `lo` on and below `hi`. From its entry to its exit
it consumes what a relation says, and no state is a dead end. -/
structure Piece (probe : Probe Expr) (lo hi : Nat) (E : List (Edge Expr)) (f : Fragment)
    (L : List Char → List Char → Prop) : Prop where
  entry : lo ≤ f.entry ∧ f.entry < hi
  exit : lo ≤ f.exit ∧ f.exit < hi
  within : Within lo hi E
  spans : ∀ u v, Path probe E (f.entry, u) (f.exit, v) ↔ L u v
  open_ended : ∀ s, lo ≤ s → s < hi → Links E s f.exit

/-- A piece that is under construction: it goes on at `tail`, and ends at `exit`, a state that no
edge leaves. -/
structure Stage (probe : Probe Expr) (lo hi : Nat) (E : List (Edge Expr)) (entry tail exit : Nat)
    (A B : List Char → List Char → Prop) : Prop where
  entry_mem : lo ≤ entry ∧ entry < hi
  tail_mem : lo ≤ tail ∧ tail < hi
  exit_mem : lo ≤ exit ∧ exit < hi
  entry_ne : entry ≠ exit
  tail_ne : tail ≠ exit
  within : Within lo hi E
  dead : ∀ e ∈ E, e.source ≠ exit
  goesOn : ∀ u v, Path probe E (entry, u) (tail, v) ↔ A u v
  stops : ∀ u v, Path probe E (entry, u) (exit, v) ↔ B u v
  open_ended : ∀ s, lo ≤ s → s < hi → Links E s tail ∨ Links E s exit

variable {lo mid hi : Nat} {f g : Fragment} {L M A B : List Char → List Char → Prop}

namespace Piece

theorem congr (h : Piece probe lo hi E f L) (same : ∀ u v, L u v ↔ M u v) :
    Piece probe lo hi E f M :=
  { h with spans := fun u v => (h.spans u v).trans (same u v) }

/-- A single state. -/
theorem state (n : Nat) : Piece probe n (n + 1) [] ⟨n, n⟩ (· = ·) where
  entry := by simp
  exit := by simp
  within := by simp [Within]
  spans u v := by
    constructor
    · intro path
      exact path.stays (P := fun _ w => u = w) rfl (by simp)
    · intro same
      exact same ▸ .refl
  open_ended s le lt := by
    have only : s = n := by omega
    exact only ▸ .refl

/-- An edge joins two pieces to one. -/
theorem append {c : Condition Expr} (h : Piece probe lo mid E f L) (k : Piece probe mid hi F g M)
    (mem : ∀ e, e ∈ G ↔ e ∈ E ∨ e ∈ F ∨ e = ⟨f.exit, g.entry, c⟩) :
    Piece probe lo hi G ⟨f.entry, g.exit⟩
      fun u v => ∃ w w', L u w ∧ c.Leads probe w w' ∧ M w' v := by
  have glued : Extended lo mid hi f.exit g.entry c E F G :=
    ⟨h.within, k.within, h.exit, k.entry, mem⟩
  have bounds := And.intro h.entry k.exit
  refine ⟨by simp only; omega, by simp only; omega, glued.within, ?_, ?_⟩
  · intro u v
    simp only [glued.path_second h.entry.2 k.exit.1, h.spans, k.spans]
  · intro s le lt
    by_cases first : s < mid
    · have joined : Links G f.exit g.entry := .edge glued.bridge
      have second := (k.open_ended _ k.entry.1 k.entry.2).mono glued.right
      exact (((h.open_ended s le first).mono glued.left).trans joined).trans second
    · exact (k.open_ended s (Nat.not_lt.mp first) lt).mono glued.right

/-- A silent edge joins two pieces to one. -/
theorem append_sigma (h : Piece probe lo mid E f L) (k : Piece probe mid hi F g M)
    (mem : ∀ e, e ∈ G ↔ e ∈ E ∨ e ∈ F ∨ e = ⟨f.exit, g.entry, .sigma⟩) :
    Piece probe lo hi G ⟨f.entry, g.exit⟩ fun u v => ∃ w, L u w ∧ M w v := by
  apply (h.append k mem).congr
  intro u v
  simp [Condition.Leads]

/-- An edge back from the exit to the entry repeats a piece. -/
theorem loop (h : Piece probe lo hi E f L)
    (mem : ∀ e, e ∈ G ↔ e ∈ E ∨ e = ⟨f.exit, f.entry, .sigma⟩) :
    Piece probe lo hi G f fun u v => ∃ n, Iterate L (n + 1) u v := by
  have sub : E ⊆ G := fun e he => (mem e).mpr (.inl he)
  have back : ⟨f.exit, f.entry, .sigma⟩ ∈ G := (mem _).mpr (.inr rfl)
  refine ⟨h.entry, h.exit, ?_, ?_, fun s le lt => (h.open_ended s le lt).mono sub⟩
  · intro e he
    rcases (mem e).mp he with he | rfl
    · exact h.within e he
    · exact ⟨h.exit, h.entry⟩
  · intro u v
    constructor
    · intro path
      -- Each use of the edge back completes one more round.
      have rounds : ∃ n w, Iterate L n u w ∧ Path probe E (f.entry, w) (f.exit, v) := by
        apply path.stays (P := fun s v => ∃ n w, Iterate L n u w ∧
          Path probe E (f.entry, w) (s, v))
        · exact ⟨0, u, rfl, .refl⟩
        · rintro e he w w' ⟨n, r, before, path⟩ leads
          rcases (mem e).mp he with he | rfl
          · exact ⟨n, r, before, path.trans (Path.edge he leads)⟩
          · cases leads
            exact ⟨n + 1, w, iterate_succ.mpr ⟨r, before, (h.spans r w).mp path⟩, .refl⟩
      obtain ⟨n, w, before, last⟩ := rounds
      exact ⟨n, iterate_succ.mpr ⟨w, before, (h.spans w v).mp last⟩⟩
    · rintro ⟨n, rounds⟩
      induction n generalizing v with
      | zero => exact ((h.spans u v).mpr (iterate_one.mp rounds)).mono sub
      | succ n ih =>
        obtain ⟨w, before, last⟩ := iterate_succ.mp rounds
        have again : Path probe G (f.exit, w) (f.entry, w) := .sigma back w
        exact ((ih w before).trans again).trans (((h.spans w v).mpr last).mono sub)

/-- A piece with one more state to end at. -/
theorem opened (h : Piece probe lo hi E f L) :
    Stage probe lo (hi + 1) E f.entry f.exit hi L fun _ _ => False := by
  have entry := h.entry
  have exit := h.exit
  refine ⟨by omega, by omega, by omega, by omega, by omega, h.within.mono (Nat.le_succ hi), ?_,
    h.spans, ?_, ?_⟩
  · intro e he
    have := h.within e he
    omega
  · intro u v
    constructor
    · intro path
      have inside : hi < hi := path.stays (P := fun s _ => s < hi) entry.2
        fun e he _ _ _ _ => (h.within e he).2.2
      exact absurd inside (Nat.lt_irrefl hi)
    · exact False.elim
  · intro s le lt
    by_cases last : s = hi
    · exact .inr (last ▸ .refl)
    · exact .inl (h.open_ended s le (by omega))

end Piece

namespace Stage

variable {entry tail exit : Nat} {A' B' : List Char → List Char → Prop}

theorem congr (h : Stage probe lo hi E entry tail exit A B) (same : ∀ u v, A u v ↔ A' u v)
    (same' : ∀ u v, B u v ↔ B' u v) : Stage probe lo hi E entry tail exit A' B' :=
  { h with
    goesOn := fun u v => (h.goesOn u v).trans (same u v)
    stops := fun u v => (h.stops u v).trans (same' u v) }

/-- A piece between the place where the construction goes on and a new such place. -/
theorem attach (h : Stage probe lo mid E entry tail exit A B) (k : Piece probe mid hi F f L)
    (mem : ∀ e, e ∈ G ↔ e ∈ E ∨ e ∈ F ∨ e = ⟨tail, f.entry, .sigma⟩) :
    Stage probe lo hi G entry f.exit exit (fun u v => ∃ w, A u w ∧ L w v) B ∧
      ∀ u v, Path probe G (entry, u) (tail, v) ↔ A u v := by
  have glued : Extended lo mid hi tail f.entry .sigma E F G :=
    ⟨h.within, k.within, h.tail_mem, k.entry, mem⟩
  have entry_mem := h.entry_mem
  have exit_mem := h.exit_mem
  have last_mem := k.exit
  refine ⟨⟨by omega, by omega, by omega, h.entry_ne, by omega, glued.within, ?_, ?_, ?_, ?_⟩, ?_⟩
  · intro e he
    rcases (mem e).mp he with he | he | rfl
    · exact h.dead e he
    · have := k.within e he
      omega
    · exact h.tail_ne
  · intro u v
    simp [glued.path_second h.entry_mem.2 k.exit.1, h.goesOn, k.spans, Condition.Leads]
  · intro u v
    rw [glued.path_first h.entry_mem.2 h.exit_mem.2, h.stops]
  · intro s le lt
    by_cases first : s < mid
    · have joined : Links G tail f.entry := Links.edge glued.bridge
      have across := joined.trans ((k.open_ended _ k.entry.1 k.entry.2).mono glued.right)
      rcases h.open_ended s le first with links | links
      · exact .inl ((links.mono glued.left).trans across)
      · exact .inr (links.mono glued.left)
    · exact .inl ((k.open_ended s (Nat.not_lt.mp first) lt).mono glued.right)
  · intro u v
    rw [glued.path_first h.entry_mem.2 h.tail_mem.2, h.goesOn]

/-- An edge to the end. -/
theorem close {t : Nat} (h : Stage probe lo hi E entry tail exit A B) (ht : lo ≤ t ∧ t < hi)
    (ne : t ≠ exit) (reach : ∀ u v, Path probe E (entry, u) (t, v) ↔ L u v)
    (mem : ∀ e, e ∈ G ↔ e ∈ E ∨ e = ⟨t, exit, .sigma⟩) :
    Stage probe lo hi G entry tail exit A (fun u v => B u v ∨ L u v) := by
  have sub : E ⊆ G := fun e he => (mem e).mpr (.inl he)
  refine { h with within := ?_, dead := ?_, goesOn := ?_, stops := ?_, open_ended := ?_ }
  · intro e he
    rcases (mem e).mp he with he | rfl
    · exact h.within e he
    · exact ⟨ht, h.exit_mem⟩
  · intro e he
    rcases (mem e).mp he with he | rfl
    · exact h.dead e he
    · exact ne
  · intro u v
    simp [path_closed h.dead ne mem, h.tail_ne, h.goesOn]
  · intro u v
    simp [path_closed h.dead ne mem, h.stops, reach]
  · intro s le lt
    exact (h.open_ended s le lt).imp (Links.mono sub) (Links.mono sub)

/-- A piece that is complete, since the construction has nowhere else to go on. -/
theorem piece (h : Stage probe lo hi E entry tail exit A B) (closed : Links E tail exit) :
    Piece probe lo hi E ⟨entry, exit⟩ B where
  entry := h.entry_mem
  exit := h.exit_mem
  within := h.within
  spans := h.stops
  open_ended s le lt := (h.open_ended s le lt).elim (fun links => links.trans closed) id

/-- The construction goes on at a place of its own, and may end there. -/
theorem finish (h : Stage probe lo hi E entry tail exit A B)
    (mem : ∀ e, e ∈ G ↔ e ∈ E ∨ e = ⟨tail, exit, .sigma⟩) :
    Piece probe lo hi G ⟨entry, exit⟩ fun u v => B u v ∨ A u v :=
  (h.close h.tail_mem h.tail_ne h.goesOn mem).piece (Links.edge ((mem _).mpr (.inr rfl)))

/-- A piece between the place where the construction goes on and the end. -/
theorem branch (h : Stage probe lo mid E entry tail exit A B) (k : Piece probe mid hi F f L)
    (mem : ∀ e, e ∈ G ↔
      e ∈ E ∨ e ∈ F ∨ e = ⟨tail, f.entry, .sigma⟩ ∨ e = ⟨f.exit, exit, .sigma⟩) :
    Stage probe lo hi G entry tail exit A (fun u v => B u v ∨ ∃ w, A u w ∧ L w v) ∧
      Links G tail exit := by
  obtain ⟨attached, back⟩ := h.attach (G := ⟨tail, f.entry, .sigma⟩ :: (E ++ F)) k (by grind)
  have closed := attached.close (G := G) attached.tail_mem attached.tail_ne attached.goesOn
    (by grind)
  have sub : ⟨tail, f.entry, .sigma⟩ :: (E ++ F) ⊆ G := by grind
  have last : Links G f.exit exit := Links.edge ((mem _).mpr (.inr (.inr (.inr rfl))))
  have first : Links G tail f.entry := Links.edge ((mem _).mpr (.inr (.inr (.inl rfl))))
  have through := (k.open_ended _ k.entry.1 k.entry.2).mono
    (fun e he => (mem e).mpr (.inr (.inl he)))
  have whole := closed.piece last
  have tail_mem := h.tail_mem
  have wide := k.entry
  refine ⟨{ closed with
    tail_mem := by omega, tail_ne := h.tail_ne, goesOn := ?_, open_ended := ?_ },
    (first.trans through).trans last⟩
  · intro u v
    have kept : Path probe G (entry, u) (tail, v) ↔ _ :=
      path_closed attached.dead attached.tail_ne (by grind)
    simp [kept, h.tail_ne, back]
  · intro s le lt
    exact .inr (whole.open_ended s le lt)

/-- A piece that may be left out together with what follows. -/
theorem skip (h : Stage probe lo mid E entry tail exit A B) (k : Piece probe mid hi F f L)
    (mem : ∀ e, e ∈ G ↔
      e ∈ E ∨ e ∈ F ∨ e = ⟨tail, f.entry, .sigma⟩ ∨ e = ⟨tail, exit, .sigma⟩) :
    Stage probe lo hi G entry f.exit exit (fun u v => ∃ w, A u w ∧ L w v)
      fun u v => B u v ∨ A u v := by
  obtain ⟨attached, back⟩ := h.attach (G := ⟨tail, f.entry, .sigma⟩ :: (E ++ F)) k (by grind)
  have tail_mem := h.tail_mem
  have wide := k.entry
  exact attached.close (by omega) h.tail_ne back (by grind)

end Stage

end Fragment

end PatternAutomata
