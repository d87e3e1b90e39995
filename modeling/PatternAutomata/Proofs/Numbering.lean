import PatternAutomata.Automaton.Numbering
import Mathlib.Data.List.Induction
import Mathlib.Data.List.Nodup

/-!
# Numbers of keys

A numbering only ever grows at its end, so what one step numbers is still numbered in the same way
later (`Extends`). `distinct` keeps the first occurrence of each key and `gathered` groups values
without changing their order.
-/
namespace PatternAutomata

namespace Numbering

variable {κ : Type} [DecidableEq κ] [Hashable κ]

theorem place?_eq_some_iff {n : Numbering κ} {k : κ} {i : Nat} :
    n.place? k = some i ↔ n.keys[i]? = some k := n.places_eq_some_iff k i

theorem place?_isSome_iff {n : Numbering κ} {k : κ} :
    (n.place? k).isSome ↔ k ∈ n.keys.toList := by
  rw [Option.isSome_iff_exists, List.mem_iff_getElem?]
  simp only [place?_eq_some_iff, Array.getElem?_toList]

theorem place?_eq_none_iff {n : Numbering κ} {k : κ} :
    n.place? k = none ↔ k ∉ n.keys.toList := by
  rw [← place?_isSome_iff, Option.not_isSome_iff_eq_none]

theorem place?_lt {n : Numbering κ} {k : κ} {i : Nat} (h : n.place? k = some i) : i < n.size := by
  obtain ⟨hi, _⟩ := Array.getElem?_eq_some_iff.mp (place?_eq_some_iff.mp h)
  exact hi

theorem nodup_keys (n : Numbering κ) : n.keys.toList.Nodup := by
  rw [List.nodup_iff_getElem?_ne_getElem?]
  intro i j hij hj same
  have hk := List.getElem?_eq_getElem hj
  rw [hk, Array.getElem?_toList, ← place?_eq_some_iff] at same
  rw [Array.getElem?_toList, ← place?_eq_some_iff] at hk
  have := Option.some.inj (same.symm.trans hk)
  omega

theorem number_of_place? {n : Numbering κ} {k : κ} {i : Nat} (h : n.place? k = some i) :
    n.number k = (n, i) := by
  unfold number
  split
  · next j hj => rw [Option.some.inj (h.symm.trans hj)]
  · next hj => cases h.symm.trans hj

theorem keys_number (n : Numbering κ) (k : κ) :
    (n.number k).1.keys.toList =
      if k ∈ n.keys.toList then n.keys.toList else n.keys.toList ++ [k] := by
  unfold number
  split
  · next i hi => rw [if_pos (place?_isSome_iff.mp (Option.isSome_of_eq_some hi))]
  · next hi => rw [if_neg (place?_eq_none_iff.mp hi), push, Array.toList_push]

/-- The keys from a number on. -/
theorem drop_keys {n : Numbering κ} {k : κ} {i : Nat} (h : n.keys[i]? = some k) :
    n.keys.toList.drop i = k :: n.keys.toList.drop (i + 1) := by
  rw [List.drop_eq_getElem?_toList_append, Array.getElem?_toList, h]
  rfl

theorem number_of_new {n : Numbering κ} {k : κ} (h : n.place? k = none) :
    (n.number k).1.keys.toList = n.keys.toList ++ [k] ∧ (n.number k).2 = n.size := by
  refine ⟨by rw [keys_number, if_neg (place?_eq_none_iff.mp h)], ?_⟩
  unfold number
  split
  · next hj => cases h.symm.trans hj
  · rfl

theorem mem_keys_number {n : Numbering κ} {k l : κ} :
    l ∈ (n.number k).1.keys.toList ↔ l ∈ n.keys.toList ∨ l = k := by
  rw [keys_number]
  split
  · next h => exact ⟨.inl, fun h' => h'.elim id fun e => e ▸ h⟩
  · simp

/-- Every key of the first numbering has the same number in the second. -/
def Extends (n m : Numbering κ) : Prop := ∀ k i, n.place? k = some i → m.place? k = some i

theorem Extends.refl (n : Numbering κ) : n.Extends n := fun _ _ h => h

theorem Extends.trans {n m l : Numbering κ} (h : n.Extends m) (k : m.Extends l) : n.Extends l :=
  fun _ _ p => k _ _ (h _ _ p)

theorem extends_number (n : Numbering κ) (k : κ) : n.Extends (n.number k).1 :=
  fun _ _ => place?_number_of_place?

theorem Extends.mem {n m : Numbering κ} (h : n.Extends m) {k : κ} (hk : k ∈ n.keys.toList) :
    k ∈ m.keys.toList := by
  obtain ⟨i, hi⟩ := Option.isSome_iff_exists.mp (place?_isSome_iff.mpr hk)
  exact place?_isSome_iff.mp (Option.isSome_of_eq_some (h _ _ hi))

theorem Extends.key {n m : Numbering κ} (h : n.Extends m) {i : Nat} {k : κ}
    (hk : n.keys[i]? = some k) : m.keys[i]? = some k :=
  place?_eq_some_iff.mp (h _ _ (place?_eq_some_iff.mpr hk))

theorem Extends.isPrefix {n m : Numbering κ} (h : n.Extends m) :
    n.keys.toList <+: m.keys.toList := by
  rw [List.prefix_iff_getElem?]
  intro i hi
  have key : n.keys[i]? = some n.keys.toList[i] := by
    rw [← Array.getElem?_toList]
    exact List.getElem?_eq_getElem hi
  exact Array.getElem?_toList.trans (h.key key)

theorem Extends.size_le {n m : Numbering κ} (h : n.Extends m) : n.size ≤ m.size := by
  have le := h.isPrefix.length_le
  rw [Array.length_toList, Array.length_toList] at le
  exact le

/-- Two keys that are numbered alike in an extension were numbered alike before. -/
theorem Extends.place?_of_lt {n m : Numbering κ} (h : n.Extends m) {k : κ} {i : Nat}
    (hk : m.place? k = some i) (hi : i < n.size) : n.place? k = some i := by
  have hn : n.keys[i]? = some n.keys[i] := Array.getElem?_eq_getElem hi
  have hm := h.key hn
  rw [place?_eq_some_iff.mp hk] at hm
  rw [place?_eq_some_iff, hn, Option.some.inj hm]

theorem ofList_append (ks : List κ) (k : κ) :
    ofList (ks ++ [k]) = ((ofList ks).number k).1 := by
  rw [ofList, List.foldl_append]
  rfl

theorem mem_ofList {k : κ} {ks : List κ} : k ∈ (ofList ks).keys.toList ↔ k ∈ ks := by
  induction ks using List.reverseRecOn with
  | nil => simp [ofList, empty]
  | append_singleton ks l ih => rw [ofList_append, mem_keys_number, ih]; simp

theorem extends_ofList (ks ls : List κ) : (ofList ks).Extends (ofList (ks ++ ls)) := by
  induction ls using List.reverseRecOn with
  | nil =>
    rw [List.append_nil]
    exact .refl _
  | append_singleton ls l ih =>
    rw [← List.append_assoc, ofList_append]
    exact ih.trans (extends_number _ l)

/-- What is numbered before a key occurs before it, or is the key. -/
theorem mem_of_number_le {ks ls : List κ} {k l : κ} {i j : Nat}
    (hk : (ofList (ks ++ k :: ls)).place? k = some i)
    (hl : (ofList (ks ++ k :: ls)).place? l = some j) (le : j ≤ i) : l ∈ ks ∨ l = k := by
  have split : ks ++ k :: ls = ks ++ [k] ++ ls := by simp
  rw [split] at hk hl
  have grown := extends_ofList (ks ++ [k]) ls
  have member : k ∈ (ofList (ks ++ [k])).keys.toList := mem_ofList.mpr (by simp)
  obtain ⟨i', hi⟩ := Option.isSome_iff_exists.mp (place?_isSome_iff.mpr member)
  have same : i = i' := Option.some.inj (hk.symm.trans (grown _ _ hi))
  have before := grown.place?_of_lt hl (Nat.lt_of_le_of_lt le (same ▸ place?_lt hi))
  have known := mem_ofList.mp (place?_isSome_iff.mp (Option.isSome_of_eq_some before))
  simpa using known

/-- Keys that are equal in the same places are numbered in the same way. -/
theorem place?_map_congr {ι μ : Type} [DecidableEq μ] [Hashable μ] {f : ι → κ} {g : ι → μ}
    {xs : List ι} (h : ∀ x ∈ xs, ∀ y ∈ xs, f x = f y ↔ g x = g y) :
    (ofList (xs.map f)).size = (ofList (xs.map g)).size ∧
      ∀ x ∈ xs, (ofList (xs.map f)).place? (f x) = (ofList (xs.map g)).place? (g x) := by
  induction xs using List.reverseRecOn with
  | nil => exact ⟨rfl, by simp⟩
  | append_singleton xs z ih =>
    obtain ⟨size, places⟩ := ih fun x hx y hy => h x (by simp [hx]) y (by simp [hy])
    have old {μ : Type} [DecidableEq μ] [Hashable μ] (g : ι → μ) :
        (ofList (xs.map g)).place? (g z) = none ↔ ∀ x ∈ xs, g x ≠ g z := by
      rw [place?_eq_none_iff, mem_ofList, List.mem_map]
      exact ⟨fun k x hx e => k ⟨x, hx, e⟩, fun k ⟨x, hx, e⟩ => k x hx e⟩
    simp only [List.map_append, List.map_cons, List.map_nil, ofList_append]
    by_cases new : ∀ x ∈ xs, f x ≠ f z
    · have new' : ∀ x ∈ xs, g x ≠ g z := fun x hx e =>
        new x hx ((h x (by simp [hx]) z (by simp)).mpr e)
      obtain ⟨kf, nf⟩ := number_of_new ((old f).mpr new)
      obtain ⟨kg, ng⟩ := number_of_new ((old g).mpr new')
      have grown : ((ofList (xs.map f)).number (f z)).1.size =
          ((ofList (xs.map g)).number (g z)).1.size := by
        simpa [Numbering.size, ← Array.length_toList, kf, kg] using size
      refine ⟨grown, fun x hx => ?_⟩
      rcases List.mem_append.mp hx with hx | hx
      · obtain ⟨i, hi⟩ := Option.isSome_iff_exists.mp
          (place?_isSome_iff.mpr (mem_ofList.mpr (List.mem_map_of_mem (f := f) hx)))
        rw [place?_number_of_place? hi, place?_number_of_place? ((places x hx) ▸ hi)]
      · rw [List.mem_singleton.mp hx, place?_number, place?_number, nf, ng, size]
    · push Not at new
      obtain ⟨y, hy, e⟩ := new
      have e' := (h y (by simp [hy]) z (by simp)).mp e
      obtain ⟨i, hi⟩ := Option.isSome_iff_exists.mp
        (place?_isSome_iff.mpr (mem_ofList.mpr (List.mem_map_of_mem (f := f) hy)))
      have hi' := (places y hy) ▸ hi
      rw [e] at hi
      rw [e'] at hi'
      rw [number_of_place? hi, number_of_place? hi']
      refine ⟨size, fun x hx => ?_⟩
      rcases List.mem_append.mp hx with hx | hx
      · exact places x hx
      · rw [List.mem_singleton.mp hx, hi, hi']

end Numbering

variable {κ β : Type} [DecidableEq κ] [Hashable κ]

@[simp]
theorem mem_distinct {k : κ} {ks : List κ} : k ∈ distinct ks ↔ k ∈ ks := Numbering.mem_ofList

theorem nodup_distinct (ks : List κ) : (distinct ks).Nodup := Numbering.nodup_keys _

theorem distinct_append (ks : List κ) (k : κ) :
    distinct (ks ++ [k]) = if k ∈ ks then distinct ks else distinct ks ++ [k] := by
  simp only [distinct, Numbering.ofList_append, Numbering.keys_number, Numbering.mem_ofList]

theorem distinct_eq_self {ks : List κ} (h : ks.Nodup) : distinct ks = ks := by
  induction ks using List.reverseRecOn with
  | nil => rfl
  | append_singleton ks k ih =>
    obtain ⟨old, _, new⟩ := List.nodup_append.mp h
    rw [distinct_append, if_neg fun hk => new k hk k (by simp) rfl, ih old]

/-- Keys without repeats are numbered by their places. -/
theorem Numbering.place?_ofList {ks : List κ} (h : ks.Nodup) {k : κ} {i : Nat} :
    (Numbering.ofList ks).place? k = some i ↔ ks[i]? = some k := by
  have keys : (Numbering.ofList ks).keys.toList = ks := distinct_eq_self h
  rw [Numbering.place?_eq_some_iff, ← Array.getElem?_toList, keys]

/-- One more pair in the groups of values that belong to numbered keys. -/
theorem gathered_step {n : Numbering κ} {groups : Array (Array β)} {ps : List (κ × β)} {k : κ}
    {b : β} (hn : n = Numbering.ofList (ps.map Prod.fst)) (hsize : groups.size = n.size)
    (hg : ∀ l i, n.place? l = some i →
      groups[i]?.map Array.toList = some ((ps.filter (·.1 = l)).map Prod.snd)) :
    let i := (n.number k).2
    let grown := if i < groups.size then groups.modify i (·.push b) else groups.push #[b]
    grown.size = (n.number k).1.size ∧
      ∀ l j, (n.number k).1.place? l = some j →
        grown[j]?.map Array.toList = some (((ps ++ [(k, b)]).filter (·.1 = l)).map Prod.snd) := by
  intro i grown
  cases h : n.place? k with
  | some i' =>
    have hi : i = i' := congrArg Prod.snd (Numbering.number_of_place? h)
    have hlt : i < groups.size := by rw [hi, hsize]; exact Numbering.place?_lt h
    simp only [grown, if_pos hlt, Numbering.number_of_place? h, Array.size_modify]
    refine ⟨hsize, fun l j hl => ?_⟩
    have hj := hg l j hl
    by_cases e : i = j
    · have hkl : k = l := Numbering.eq_of_place? (hi ▸ h) (e ▸ hl)
      subst hkl
      obtain ⟨old, hold, hlist⟩ := Option.map_eq_some_iff.mp hj
      simp [Array.getElem?_modify, e, hold, hlist]
    · have hkl : k ≠ l := fun same => e (hi.trans (Option.some.inj (h.symm.trans (same ▸ hl))))
      simp [Array.getElem?_modify, e, hkl, hj]
  | none =>
    obtain ⟨keys, hi⟩ := Numbering.number_of_new h
    have hlt : ¬ i < groups.size := by rw [hsize]; exact hi ▸ Nat.lt_irrefl _
    have size : (n.number k).1.size = n.size + 1 := by
      simp [Numbering.size, ← Array.length_toList, keys]
    simp only [grown, if_neg hlt, size, Array.size_push, hsize, true_and]
    intro l j hl
    by_cases e : l = k
    · subst e
      have hj : j = n.size := by
        rw [Numbering.place?_number] at hl
        exact (Option.some.inj hl).symm.trans hi
      have hnone : ps.filter (·.1 = l) = [] := by
        rw [List.filter_eq_nil_iff]
        intro p hp same
        have := (hn ▸ Numbering.place?_eq_none_iff.mp h)
        exact this (Numbering.mem_ofList.mpr (List.mem_map.mpr ⟨p, hp, by simpa using same⟩))
      simp [hj, ← hsize, hnone]
    · have hold : n.place? l = some j := by
        have hmem := Numbering.mem_keys_number.mp
          (Numbering.place?_isSome_iff.mp (Option.isSome_of_eq_some hl))
        obtain ⟨j', hj'⟩ := Option.isSome_iff_exists.mp
          (Numbering.place?_isSome_iff.mpr (hmem.resolve_right e))
        rw [Numbering.place?_number_of_place? hj'] at hl
        rw [hj', Option.some.inj hl]
      have hj : j ≠ groups.size := by
        rw [hsize]
        exact Nat.ne_of_lt (Numbering.place?_lt hold)
      simp [Array.getElem?_push, hj, Ne.symm e, hg l j hold]

/-- Each distinct key comes with its own values, in the order of the pairs. -/
theorem gathered_eq (ps : List (κ × β)) :
    gathered ps = (distinct (ps.map Prod.fst)).map fun k =>
      (k, (ps.filter (·.1 = k)).map Prod.snd) := by
  let add := fun (s : Numbering κ × Array (Array β)) (p : κ × β) =>
    ((s.1.number p.1).1, if (s.1.number p.1).2 < s.2.size then
      s.2.modify (s.1.number p.1).2 (·.push p.2) else s.2.push #[p.2])
  have inv (ps : List (κ × β)) : let s := ps.foldl add (Numbering.empty, #[])
      s.1 = Numbering.ofList (ps.map Prod.fst) ∧ s.2.size = s.1.size ∧
        ∀ l i, s.1.place? l = some i →
          s.2[i]?.map Array.toList = some ((ps.filter (·.1 = l)).map Prod.snd) := by
    induction ps using List.reverseRecOn with
    | nil => simp [Numbering.ofList, Numbering.empty, Numbering.size, Numbering.place?]
    | append_singleton ps p ih =>
      obtain ⟨keys, size, groups⟩ := ih
      simp only [List.foldl_append, List.foldl_cons, List.foldl_nil, List.map_append,
        List.map_cons, List.map_nil, Numbering.ofList_append, ← keys]
      exact ⟨rfl, gathered_step keys size groups⟩
  obtain ⟨keys, size, groups⟩ := inv ps
  have unfolded : gathered ps = ((ps.foldl add (Numbering.empty, #[])).1.keys.toList).zip
      ((ps.foldl add (Numbering.empty, #[])).2.toList.map Array.toList) := rfl
  rw [unfolded, distinct, ← keys]
  generalize ps.foldl add (Numbering.empty, #[]) = s at size groups
  refine List.ext_getElem (by simp [size, Numbering.size]) fun i hi hi' => ?_
  simp only [List.length_map, Array.length_toList] at hi'
  have hk : s.1.keys[i]? = some s.1.keys[i] := Array.getElem?_eq_getElem hi'
  have hg := groups _ _ (Numbering.place?_eq_some_iff.mpr hk)
  obtain ⟨a, ha, hlist⟩ := Option.map_eq_some_iff.mp hg
  obtain ⟨_, ha⟩ := Array.getElem?_eq_some_iff.mp ha
  simp [ha, hlist]

end PatternAutomata
