import PatternAutomata.Proofs.BranchReading
import PatternAutomata.Proofs.NormalMatches
import Mathlib.Logic.Relation

/-!
# What trees match

Under the usual flags a tree stands for a relation between the text in front of it and what it
leaves of it. Each way to put trees together puts the relations together, one law for each of them.
-/
namespace PatternAutomata.Pattern

open PatternAutomata.Pattern.Normal Relation

namespace Tree

/-- The trees have sound normal patterns, which ask for no place, and leave the flags as they
are. -/
def Normalize (ts : List Tree) (ps : List Normal) : Prop :=
  normalAll .usual ts = .ok (ps, .usual) ∧ ∀ p ∈ ps, Sound False p

/-- The tree matches by the relation. -/
def Means (t : Tree) (R : List Char → List Char → Prop) : Prop :=
  ∃ p, t.normal .usual = .ok (p, .usual) ∧ Sound False p ∧ ∀ ask, Matches ask p = R

/-- The trees match by the relation, one after another. -/
def MeanInTurn (ts : List Tree) (R : List Char → List Char → Prop) : Prop :=
  ∃ ps, Normalize ts ps ∧ ∀ ask, MatchesInTurn ask ps = R

/-- Any of the trees matches by the relation. -/
def MeanAny (ts : List Tree) (R : List Char → List Char → Prop) : Prop :=
  ∃ ps, Normalize ts ps ∧ ∀ ask, MatchesAny ask ps = R

variable {t : Tree} {ts us : List Tree} {ps qs : List Normal} {R S : List Char → List Char → Prop}

theorem normalAll_append {f f' f'' : Flags} (h : normalAll f ts = .ok (ps, f'))
    (h' : normalAll f' us = .ok (qs, f'')) : normalAll f (ts ++ us) = .ok (ps ++ qs, f'') := by
  induction ts generalizing f ps with
  | nil =>
    cases h
    exact h'
  | cons t ts ih =>
    obtain ⟨⟨p, g⟩, first, h⟩ := bind_eq_ok.mp h
    obtain ⟨⟨rest, g'⟩, others, ⟨⟩⟩ := bind_eq_ok.mp h
    rw [List.cons_append, normalAll, first]
    simp only [bind, Except.bind, ih others]
    rfl

theorem Normalize.append (h : Normalize ts ps) (h' : Normalize us qs) :
    Normalize (ts ++ us) (ps ++ qs) :=
  ⟨normalAll_append h.1 h'.1, List.forall_mem_append.mpr ⟨h.2, h'.2⟩⟩

theorem normalize_singleton : Normalize [t] ps ↔
    ∃ p, t.normal .usual = .ok (p, .usual) ∧ Sound False p ∧ ps = [p] := by
  constructor
  · rintro ⟨ok, sound⟩
    obtain ⟨⟨p, f⟩, first, ok⟩ := bind_eq_ok.mp ok
    cases ok
    exact ⟨p, first, sound p (List.mem_singleton_self p), rfl⟩
  · rintro ⟨p, ok, sound, rfl⟩
    refine ⟨?_, by simpa using sound⟩
    rw [normalAll, ok]
    rfl

/-- A single tree matches what it matches on its own, in a row and as a choice. -/
theorem exists_normalize_singleton
    {F : (Look → List Char → Prop) → List Normal → List Char → List Char → Prop}
    (alone : ∀ ask p, F ask [p] = Matches ask p) :
    (∃ ps, Normalize [t] ps ∧ ∀ ask, F ask ps = R) ↔ Means t R := by
  constructor
  · rintro ⟨ps, normals, same⟩
    obtain ⟨p, ok, sound, rfl⟩ := normalize_singleton.mp normals
    exact ⟨p, ok, sound, fun ask => (alone ask p).symm.trans (same ask)⟩
  · rintro ⟨p, ok, sound, same⟩
    have normals : Normalize [t] [p] := normalize_singleton.mpr ⟨p, ok, sound, rfl⟩
    exact ⟨[p], normals, fun ask => (alone ask p).trans (same ask)⟩

theorem meanInTurn_singleton : MeanInTurn [t] R ↔ Means t R := by
  refine exists_normalize_singleton ?_
  intro ask p
  ext s t
  exact matchesInTurn_singleton

theorem meanAny_singleton : MeanAny [t] R ↔ Means t R := by
  refine exists_normalize_singleton ?_
  intro ask p
  ext s t
  simp [MatchesAny]

theorem Means.literal (c : Char) : Means (.literal ⟨c, false⟩) fun s t => s = c :: t := by
  refine ⟨.ofRanges (.ofChars [c]) false, rfl, sound_ofRanges _ _, fun ask => ?_⟩
  ext s t
  simp [matches_ofRanges, Ranges.mem_ofChars]

theorem Means.set {k : ClassTree} {s : CharSet} (h : Denotes k s) :
    Means (.set k) fun u t => ∃ c ∈ s, u = c :: t := by
  obtain ⟨r, ok, -, rfl⟩ := h
  refine ⟨.ofRanges r false, ?_, sound_ofRanges _ _, fun ask => ?_⟩
  · rw [normal, ok]
    rfl
  · ext u t
    exact matches_ofRanges r false

theorem Means.repetition (h : Means t R) {min : Nat} {max : Option Nat}
    (ordered : ∀ m ∈ max, min ≤ m) : Means (.repetition t min max true) (Times R min max) := by
  obtain ⟨p, ok, sound, same⟩ := h
  refine ⟨p.repeated min max true, ?_, sound_repeated sound ordered _, fun ask => ?_⟩
  · rw [normal, ok]
    rfl
  · ext s t
    rw [← same ask]
    exact (matches_repeated ordered true)

theorem Means.group (h : Means t R) : Means (.group (.plain []) t) R := by
  obtain ⟨p, ok, sound, same⟩ := h
  refine ⟨p, ?_, sound, same⟩
  have kept : Flags.usual.apply [] = .usual := rfl
  rw [normal, kept, ok]
  rfl

theorem MeanInTurn.nil : MeanInTurn [] (· = ·) := by
  refine ⟨[], ⟨rfl, by simp⟩, fun ask => ?_⟩
  ext s t
  rw [MatchesInTurn]

theorem MeanInTurn.append (h : MeanInTurn ts R) (h' : MeanInTurn us S) :
    MeanInTurn (ts ++ us) (Comp R S) := by
  obtain ⟨ps, first, same⟩ := h
  obtain ⟨qs, second, same'⟩ := h'
  refine ⟨ps ++ qs, first.append second, fun ask => ?_⟩
  rw [← same ask, ← same' ask]
  ext s t
  exact matchesInTurn_append

/-- Items are put together to one tree. -/
theorem MeanInTurn.ofItems (h : MeanInTurn ts R) : Means (.ofItems ts) R := by
  unfold Tree.ofItems
  split
  · obtain ⟨ps, ⟨⟨⟩, -⟩, same⟩ := h
    refine ⟨.empty, rfl, trivial, fun ask => ?_⟩
    rw [← same ask]
    ext s t
    rw [Matches, MatchesInTurn]
  · exact meanInTurn_singleton.mp h
  · obtain ⟨ps, ⟨ok, sound⟩, same⟩ := h
    refine ⟨.concat ps, ?_, sound_concat sound, fun ask => ?_⟩
    · rw [normal, ok]
      rfl
    · rw [← same ask]
      ext s t
      exact (matches_concat ps s t)

theorem MeanAny.append (h : MeanAny ts R) (h' : MeanAny us S) :
    MeanAny (ts ++ us) fun s t => R s t ∨ S s t := by
  obtain ⟨ps, first, same⟩ := h
  obtain ⟨qs, second, same'⟩ := h'
  refine ⟨ps ++ qs, first.append second, fun ask => ?_⟩
  rw [← same ask, ← same' ask]
  ext s t
  simp only [matchesAny_iff, List.mem_append, or_and_right, exists_or]

/-- Branches are put together to one tree. -/
theorem MeanAny.ofBranches (h : MeanAny ts R) : Means (.ofBranches ts) R := by
  unfold Tree.ofBranches
  split
  · exact meanAny_singleton.mp h
  · obtain ⟨ps, ⟨ok, sound⟩, same⟩ := h
    refine ⟨.anyOf ps, ?_, sound_anyOf sound, fun ask => ?_⟩
    · rw [normal, ok]
      rfl
    · rw [← same ask]
      ext s t
      exact (matches_anyOf ps s t)

end Tree

end PatternAutomata.Pattern
