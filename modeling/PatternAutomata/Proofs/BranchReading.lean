import PatternAutomata.Proofs.BoundsReading
import PatternAutomata.Proofs.ClassReading

/-!
# Reading branches

A text is read as branches if it adds them to whatever the reader is at, outside classes. Such texts
can be put side by side, apart by bars, in groups and under bounds, and what is read grows by the
same steps. A question mark after a text may belong to its last bounds, so none may follow.
-/
namespace PatternAutomata.Pattern

open Scanner

namespace Level

/-- The level after more branches, the first of which continues the open one. -/
def extend (l : Level) : List (List Tree) → Level
  | [] => l
  | [items] => ⟨l.branches, items.reverse ++ l.items⟩
  | items :: branches => extend (split ⟨l.branches, items.reverse ++ l.items⟩) branches

variable {l : Level} {items : List Tree} {bs cs : List (List Tree)}

theorem extend_cons (l : Level) (items : List Tree) (h : bs ≠ []) :
    l.extend (items :: bs) = (l.extend [items]).split.extend bs := by
  obtain ⟨b, bs, rfl⟩ := List.exists_cons_of_ne_nil h
  rfl

theorem extend_append (hb : bs ≠ []) (hc : cs ≠ []) :
    l.extend (bs ++ cs) = (l.extend bs).split.extend cs := by
  induction bs generalizing l with
  | nil => exact absurd rfl hb
  | cons items bs ih =>
    by_cases last : bs = []
    · subst last
      exact extend_cons l items hc
    · have more : bs ++ cs ≠ [] := by simp [hc]
      rw [List.cons_append, extend_cons l items more, ih last, extend_cons l items last]

theorem extend_single_append (l : Level) (ts us : List Tree) :
    (l.extend [ts]).extend [us] = l.extend [ts ++ us] := by
  simp [extend]

/-- The tree of some branches. -/
theorem tree_extend (l : Level) (items : List Tree) (bs : List (List Tree)) :
    (l.extend (items :: bs)).tree = Tree.ofBranches (l.branches.reverse ++
      .ofItems (l.items.reverse ++ items) :: bs.map Tree.ofItems) := by
  induction bs generalizing l items with
  | nil => simp [extend, tree, branch]
  | cons b bs ih =>
    rw [extend_cons l items (List.cons_ne_nil _ _), ih]
    simp [extend, split, branch]

end Level

/-- The tree of branches that are given by their items. -/
def treeOf (bs : List (List Tree)) : Tree := .ofBranches (bs.map .ofItems)

theorem tree_extend_none {bs : List (List Tree)} (h : bs ≠ []) :
    (Level.none.extend bs).tree = treeOf bs := by
  obtain ⟨items, bs, rfl⟩ := List.exists_cons_of_ne_nil h
  rw [Level.tree_extend]
  rfl

theorem NoMark.before {text : List Char} (h : NoMark text) (some : text ≠ []) (rest : List Char) :
    NoMark (text ++ rest) := by
  obtain ⟨c, cs, rfl⟩ := List.exists_cons_of_ne_nil some
  exact h

theorem NoMark.append {text text' : List Char} (h : NoMark text) (h' : NoMark text') :
    NoMark (text ++ text') := by
  cases text with
  | nil => exact h'
  | cons c cs => exact h

namespace Reader

/-- The same reader on another level. -/
def onLevel (r : Reader) (l : Level) : Reader := { r with level := l }

@[simp]
theorem level_onLevel (r : Reader) (l : Level) : (r.onLevel l).level = l := rfl

@[simp]
theorem onLevel_onLevel (r : Reader) (l l' : Level) : (r.onLevel l).onLevel l' = r.onLevel l' := rfl

/-- In a pattern the text is read as more branches, unless a question mark follows. -/
structure Reads (text : List Char) (bs : List (List Tree)) : Prop where
  some : bs ≠ []
  start : NoMark text
  run : ∀ r : Reader, r.brackets = [] → r.spaced = false → ∀ rest, NoMark rest →
    r.run (text ++ rest) = (r.onLevel (r.level.extend bs)).run rest

variable {text text' : List Char} {t : Tree} {ts us : List Tree} {bs cs : List (List Tree)}

theorem reads_nil : Reads [] [[]] :=
  ⟨by simp, by simp [NoMark], fun r _ _ rest _ => rfl⟩

theorem ReadsPart.ne_nil (h : ReadsPart text t) : text ≠ [] := by
  rintro rfl
  have grown : (start.push .dot).run [] = ((start.push .dot).push t).run [] := h _ rfl rfl []
  rw [run_nil rfl, run_nil rfl] at grown
  cases grown

/-- A part does not start with a question mark, which would need a part before it. -/
theorem ReadsPart.noMark (h : ReadsPart text t) : NoMark text := by
  intro mark
  obtain ⟨rest, rfl⟩ := List.head?_eq_some_iff.mp mark
  have read : start.run ('?' :: rest ++ []) = (start.push t).run [] := h start rfl rfl []
  have failed : start.run ('?' :: rest ++ []) = .error .repetitionMissing := run_error rfl rfl
  rw [failed, run_nil rfl] at read
  cases read

theorem ReadsPart.reads (h : ReadsPart text t) : Reads text [[t]] :=
  ⟨by simp, h.noMark, fun r outside compact rest _ => h r outside compact rest⟩

/-- The text on its own is read as the tree of its branches. -/
theorem Reads.run_start (h : Reads text bs) : Reader.start.run text = .ok (treeOf bs) := by
  have all := h.run Reader.start rfl rfl [] (by simp [NoMark])
  rw [List.append_nil, run_nil rfl] at all
  rw [all, ← tree_extend_none h.some]
  rfl

theorem Reads.append (h : Reads text [ts]) (h' : Reads text' [us]) :
    Reads (text ++ text') [ts ++ us] := by
  refine ⟨by simp, h.start.append h'.start, ?_⟩
  intro r outside compact rest noMark
  have after := h'.run (r.onLevel (r.level.extend [ts])) outside compact rest noMark
  rw [List.append_assoc, h.run r outside compact _ (h'.start.append noMark), after, level_onLevel,
    onLevel_onLevel, Level.extend_single_append]

theorem run_bar {r : Reader} (outside : r.brackets = []) (compact : r.spaced = false)
    (rest : List Char) : r.run ('|' :: rest) = (r.onLevel r.level.split).run rest := by
  apply run_cons compact
  unfold take
  rw [outside]
  simp [takeOutside, onLevel, outside]

theorem Reads.branches (h : Reads text bs) (h' : Reads text' cs) :
    Reads (text ++ '|' :: text') (bs ++ cs) := by
  refine ⟨by simp [h.some], h.start.append (by simp [NoMark]), ?_⟩
  intro r outside compact rest noMark
  have bar := run_bar (r := r.onLevel (r.level.extend bs)) outside compact (text' ++ rest)
  have after := h'.run (r.onLevel (r.level.extend bs).split) outside compact rest noMark
  rw [level_onLevel, onLevel_onLevel] at bar after
  rw [List.append_assoc, h.run r outside compact _ (by simp [NoMark]), List.cons_append, bar, after,
    Level.extend_append h.some h'.some]

/-- The reader inside a group without flags. -/
def inGroup (r : Reader) : Reader :=
  { r with level := .none, groups := ⟨.plain [], r.level, r.spaced⟩ :: r.groups }

theorem run_openGroup {r : Reader} (outside : r.brackets = []) (compact : r.spaced = false)
    (rest : List Char) : r.run ('(' :: '?' :: ':' :: rest) = r.inGroup.run rest := by
  apply run_cons compact
  unfold take
  rw [outside]
  simp [takeOutside, opening, compact, isLookaround, flagGroup, splitWhile_false, flagChanges,
    enter, FlagChanges.value?, inGroup]

theorem run_closeGroup {r : Reader} (outside : r.brackets = []) (compact : r.spaced = false)
    (l : Level) (rest : List Char) : (r.inGroup.onLevel l).run (')' :: rest) =
      (r.push (.group (.plain []) l.tree)).run rest := by
  refine run_cons compact ?_
  simp [take, takeOutside, leave, inGroup, onLevel, outside, push]

/-- A group without flags. -/
theorem Reads.group (h : Reads text bs) :
    ReadsPart ('(' :: '?' :: ':' :: text ++ [')']) (.group (.plain []) (treeOf bs)) := by
  intro r outside compact rest
  have inside := h.run r.inGroup outside compact (')' :: rest) (by simp [NoMark])
  have closed := run_closeGroup outside compact (Level.none.extend bs) rest
  rw [tree_extend_none h.some] at closed
  have text_eq : '(' :: '?' :: ':' :: text ++ [')'] ++ rest =
      '(' :: '?' :: ':' :: (text ++ ')' :: rest) := by simp
  rw [text_eq, run_openGroup outside compact]
  exact inside.trans closed

/-- Bounds after a part. -/
theorem reads_repetition {min : Nat} {max : Option Nat} {bounds : List Char} (h : ReadsPart text t)
    (noFlags : ∀ changes, t ≠ .flags changes) (written : WritesBounds bounds min max) :
    Reads (text ++ bounds) [[.repetition t min max true]] := by
  refine ⟨by simp, h.noMark.before h.ne_nil _, ?_⟩
  intro r outside compact rest noMark
  rw [List.append_assoc, h r outside compact, run_bounds written outside compact noFlags noMark]
  rfl

end Reader

end PatternAutomata.Pattern
