import PatternAutomata.Proofs.Letters
import Mathlib.Data.Nat.Find

/-!
# States in the order of their first texts

Texts are ranked by their lengths, and texts of one length by their characters. If the states of an
automaton come in the order of the first texts that lead to them, and no two states admit the same
texts, then the numbers of the states depend on nothing but the texts that are admitted
(`Reduced.agree`).
-/
namespace PatternAutomata

/-- The place of a text among all texts: shorter ones come first, and texts of one length are
compared by their first difference. -/
def rank (w : List Char) : Nat := w.foldl (fun n x => n * 1114112 + (x.toNat + 1)) 0

theorem rank_concat (w : List Char) (x : Char) :
    rank (w ++ [x]) = rank w * 1114112 + (x.toNat + 1) := by
  unfold rank
  rw [List.foldl_append, List.foldl_cons, List.foldl_nil]

theorem toNat_lt (x : Char) : x.toNat < 1114112 := by
  rcases x.valid with small | ⟨-, large⟩
  · exact Nat.lt_trans small (by decide)
  · exact large

theorem toNat_le_iff {x y : Char} : x.toNat ≤ y.toNat ↔ x ≤ y := Iff.rfl

theorem rank_injective {v w : List Char} (same : rank v = rank w) : v = w := by
  induction v using List.reverseRecOn generalizing w with
  | nil =>
    cases w using List.reverseRecOn with
    | nil => rfl
    | append_singleton w y =>
      rw [rank_concat] at same
      simp only [rank, List.foldl_nil] at same
      omega
  | append_singleton v x ih =>
    cases w using List.reverseRecOn with
    | nil =>
      rw [rank_concat] at same
      simp only [rank, List.foldl_nil] at same
      omega
    | append_singleton w y =>
      rw [rank_concat, rank_concat] at same
      have hx := toNat_lt x
      have hy := toNat_lt y
      have front : rank v = rank w := by omega
      have last : x.toNat = y.toNat := by omega
      have equal : x = y :=
        Char.le_antisymm (toNat_le_iff.mp (by omega)) (toNat_le_iff.mp (by omega))
      rw [ih front, equal]

/-- One more character keeps the order, and decides it between equal texts. -/
theorem rank_concat_le {v w : List Char} {x y : Char} (le : rank v ≤ rank w)
    (last : rank v = rank w → x ≤ y) : rank (v ++ [x]) ≤ rank (w ++ [y]) := by
  rw [rank_concat, rank_concat]
  have hx := toNat_lt x
  by_cases same : rank v = rank w
  · have := toNat_le_iff.mpr (last same)
    omega
  · omega

namespace Graph

variable {ν μ : Type} {g : Graph ν} {h : Graph μ} {i j n m : Nat}

/-- From the state `i` on, the states come in the order of the first texts that lead to them. -/
def Ranked (g : Graph ν) (i n : Nat) : Prop :=
  ∀ s < n, ∃ w, g.Spells i w s ∧ ∀ r < n, s ≤ r → ∀ v, g.Spells i v r → rank w ≤ rank v

/-- The states are numbered as a search in breadth comes to them. Every state but the first is
entered from an earlier one, and what is entered before a state is entered from an earlier state, or
by a smaller character. -/
structure BreadthFirst (g : Graph ν) : Prop where
  entered : ∀ s, g.IsLive s → s ≠ 0 → ∃ q < s, ∃ x, g.Goes q x s
  earlier : ∀ q x r s, g.Goes q x r → s ≤ r → s ≠ 0 →
    (∃ p < q, ∃ y, g.Goes p y s) ∨ ∃ y ≤ x, g.Goes q y s

/-- Among the entrances of a state there is a first one. -/
theorem exists_first_entrance {s : Nat} (entered : ∃ q x, g.Goes q x s) :
    ∃ q x, g.Goes q x s ∧ ∀ p y, g.Goes p y s → q ≤ p ∧ (q = p → x ≤ y) := by
  classical
  have some : ∃ k q x, g.Goes q x s ∧ q * 1114112 + x.toNat = k := by
    obtain ⟨q, x, goes⟩ := entered
    exact ⟨_, q, x, goes, rfl⟩
  obtain ⟨q, x, goes, least⟩ := Nat.find_spec some
  refine ⟨q, x, goes, ?_⟩
  intro p y goes'
  have le := Nat.find_min' some ⟨p, y, goes', rfl⟩
  have hx := toNat_lt x
  have hy := toNat_lt y
  constructor
  · omega
  · intro same
    apply toNat_le_iff.mp
    omega

/-- A search in breadth comes to the states in the order of their first texts. -/
theorem BreadthFirst.ranked (h : g.BreadthFirst) (lettered : g.Lettered) (intact : g.Intact)
    (live : ∀ s, g.IsLive s ↔ s < n) : g.Ranked 0 n := by
  intro s
  induction s using Nat.strongRecOn with
  | ind s ih =>
    intro hs
    by_cases start : s = 0
    · refine ⟨[], start.symm, ?_⟩
      intro r _ _ v _
      exact Nat.zero_le _
    · -- The first text of the state is that of its first entrance, with one more character.
      obtain ⟨p, lt, y, goes⟩ := h.entered s ((live s).mpr hs) start
      obtain ⟨q, x, entrance, first⟩ := exists_first_entrance ⟨p, y, goes⟩
      have before : q < s := Nat.lt_of_le_of_lt (first p y goes).1 lt
      obtain ⟨w, spells, least⟩ := ih q before (Nat.lt_trans before hs)
      refine ⟨w ++ [x], spells_concat.mpr ⟨q, spells, entrance⟩, ?_⟩
      intro r hr le v spells'
      induction v using List.reverseRecOn with
      | nil =>
        have zero : 0 = r := spells'
        omega
      | append_singleton v y _ =>
        obtain ⟨p, front, last⟩ := spells_concat.mp spells'
        have known := h.earlier p y r s last le start
        have behind : q ≤ p := by
          rcases known with ⟨p', lt', y', goes'⟩ | ⟨y', _, goes'⟩
          · have := (first p' y' goes').1
            omega
          · exact (first p y' goes').1
        have alive : p < n := (live p).mp (last.isLive_source intact)
        refine rank_concat_le (least p alive behind v front) ?_
        intro same
        rw [← rank_injective same] at front
        have equal : q = p := lettered.spells_unique spells front
        rcases known with ⟨p', lt', y', goes'⟩ | ⟨y', le', goes'⟩
        · have := (first p' y' goes').1
          omega
        · exact Char.le_trans ((first p y' goes').2 equal) le'

/-- An automaton that reads letters only, with `n` states. None of them is useless, no two admit
the same texts, and they come in the order of the first texts that lead to them. -/
structure Reduced (g : Graph ν) (i n : Nat) : Prop where
  intact : g.Intact
  lettered : g.Lettered
  productive : g.Productive
  isLive_iff : ∀ s, g.IsLive s ↔ s < n
  start : i < n
  apart : ∀ s r, s < n → r < n → Alike g g s r → s = r
  ranked : g.Ranked i n

namespace Reduced

/-- Every state has a state in the other automaton that admits the same texts and is reached by the
same texts. -/
theorem exists_image (hg : g.Reduced i n) (hh : h.Reduced j m) (start : Alike g h i j) {s : Nat}
    (hs : s < n) : ∃ r < m, Alike g h s r ∧ ∀ w, g.Spells i w s ↔ h.Spells j w r := by
  obtain ⟨w, spells, -⟩ := hg.ranked s hs
  obtain ⟨r, spells', alike⟩ :=
    exists_alike hg.lettered hh.lettered hg.intact hg.productive start spells
  have hr : r < m :=
    (hh.isLive_iff r).mp (spells'.isLive hh.intact ((hh.isLive_iff j).mpr hh.start))
  refine ⟨r, hr, alike, ?_⟩
  intro v
  constructor
  · intro there
    obtain ⟨r', there', alike'⟩ :=
      exists_alike hg.lettered hh.lettered hg.intact hg.productive start there
    have hr' : r' < m :=
      (hh.isLive_iff r').mp (there'.isLive hh.intact ((hh.isLive_iff j).mpr hh.start))
    exact hh.apart r' r hr' hr (alike'.symm.trans alike) ▸ there'
  · intro there
    obtain ⟨s', there', alike'⟩ :=
      exists_alike hh.lettered hg.lettered hh.intact hh.productive start.symm there
    have hs' : s' < n :=
      (hg.isLive_iff s').mp (there'.isLive hg.intact ((hg.isLive_iff i).mpr hg.start))
    exact hg.apart s' s hs' hs (alike'.symm.trans alike.symm) ▸ there'

/-- The images of states come in the order of the states. -/
theorem image_lt (hg : g.Reduced i n) (hh : h.Reduced j m) {s s' r r' : Nat} (hs : s < n)
    (hs' : s' < n) (hr : r < m) (hr' : r' < m) (same : ∀ w, g.Spells i w s ↔ h.Spells j w r)
    (same' : ∀ w, g.Spells i w s' ↔ h.Spells j w r') (lt : s < s') : r < r' := by
  by_contra ge
  obtain ⟨w, spells, first⟩ := hg.ranked s hs
  obtain ⟨w', spells', first'⟩ := hh.ranked r' hr'
  have le : rank w ≤ rank w' := first s' hs' (Nat.le_of_lt lt) w' ((same' w').mpr spells')
  have le' : rank w' ≤ rank w := first' r hr (Nat.not_lt.mp ge) w ((same w).mp spells)
  have equal : w = w' := rank_injective (Nat.le_antisymm le le')
  have both : g.Spells i w s' := (same' w).mpr (equal ▸ spells')
  have := hg.lettered.spells_unique spells both
  omega

/-- Numbers that keep their order only rise. -/
theorem le_of_rising {f : Nat → Nat} (rising : ∀ s s', s < s' → s' < n → f s < f s') {s : Nat}
    (hs : s < n) : s ≤ f s := by
  induction s with
  | zero => exact Nat.zero_le _
  | succ s ih =>
    have before := ih (by omega)
    have step := rising s (s + 1) (Nat.lt_succ_self s) hs
    omega

theorem exists_rising (hg : g.Reduced i n) (hh : h.Reduced j m) (start : Alike g h i j) :
    ∃ f : Nat → Nat, ∀ s < n, f s < m ∧ Alike g h s (f s) ∧ s ≤ f s := by
  have image (s : Nat) : ∃ r, s < n → r < m ∧ Alike g h s r ∧
      ∀ w, g.Spells i w s ↔ h.Spells j w r := by
    by_cases hs : s < n
    · obtain ⟨r, hr, alike, same⟩ := exists_image hg hh start hs
      exact ⟨r, fun _ => ⟨hr, alike, same⟩⟩
    · exact ⟨0, fun hs' => absurd hs' hs⟩
  choose f hf using image
  refine ⟨f, ?_⟩
  intro s hs
  obtain ⟨hr, alike, -⟩ := hf s hs
  refine ⟨hr, alike, le_of_rising ?_ hs⟩
  intro p p' lt hp'
  have hp : p < n := Nat.lt_trans lt hp'
  exact image_lt hg hh hp hp' (hf p hp).1 (hf p' hp').1 (hf p hp).2.2 (hf p' hp').2.2 lt

/-- The states are numbered by what they admit. -/
theorem agree (hg : g.Reduced i n) (hh : h.Reduced j m) (start : Alike g h i j) :
    n = m ∧ i = j ∧ ∀ s < n, Alike g h s s := by
  obtain ⟨f, hf⟩ := exists_rising hg hh start
  obtain ⟨f', hf'⟩ := exists_rising hh hg start.symm
  have back {s : Nat} (hs : s < n) : f s = s := by
    obtain ⟨hr, alike, le⟩ := hf s hs
    obtain ⟨hs', alike', le'⟩ := hf' (f s) hr
    have same := hg.apart s (f' (f s)) hs hs' (alike.trans alike')
    omega
  have alike (s : Nat) (hs : s < n) : Alike g h s s := by
    have image := (hf s hs).2.1
    rwa [back hs] at image
  have size : n = m := by
    have first := hg.start
    have second := hh.start
    have last := hf (n - 1) (by omega)
    have last' := hf' (m - 1) (by omega)
    omega
  refine ⟨size, ?_, alike⟩
  exact hh.apart i j (size ▸ hg.start) hh.start ((alike i hg.start).symm.trans start)

end Reduced

end Graph

end PatternAutomata
