import PatternAutomata.Proofs.OrderedTrees
import PatternAutomata.Proofs.TreeMatches

/-!
# The standard parser follows the rules

A text that is written by the rules is read as what it matches, nested as deep as the rules say, and
one with a lookahead in it is refused, since all that is written before the lookahead can be read
(`Written.reads`). So the standard parser is as parsers are expected to be, with the classes that it
knows (`Tables.standard`).
-/
namespace PatternAutomata.Pattern

open Relation

namespace Reader

/-- The text asks for a lookaround, and nothing is wrong with what stands before that. -/
structure Refuses (text : List Char) : Prop where
  nonempty : text ≠ []
  start : NoMark text
  run : ∀ r : Reader, r.brackets = [] → r.spaced = false → ∀ rest,
    r.run (text ++ rest) = .error .lookaround

variable {text text' : List Char} {bs : List (List Tree)}

theorem refuses_lookaround {c : Char} (h : c = '=' ∨ c = '!') (text : List Char) :
    Refuses ('(' :: '?' :: c :: text) := by
  refine ⟨by simp, by simp [NoMark], ?_⟩
  intro r outside compact rest
  refine run_error compact ?_
  unfold take
  rw [outside]
  rcases h with rfl | rfl <;> simp [takeOutside, opening, compact, isLookaround]

theorem Refuses.before (h : Refuses text) (more : List Char) : Refuses (text ++ more) := by
  refine ⟨by simp [h.nonempty], h.start.before h.nonempty more, ?_⟩
  intro r outside compact rest
  rw [List.append_assoc]
  exact h.run r outside compact (more ++ rest)

theorem Reads.refuses (h : Reads text bs) (h' : Refuses text') : Refuses (text ++ text') := by
  refine ⟨by simp [h'.nonempty], h.start.append h'.start, ?_⟩
  intro r outside compact rest
  rw [List.append_assoc, h.run r outside compact _ (h'.start.before h'.nonempty rest)]
  exact h'.run (r.onLevel (r.level.extend bs)) outside compact rest

theorem Refuses.branch (h : Refuses text) : Refuses ('|' :: text) := by
  refine ⟨by simp, by simp [NoMark], ?_⟩
  intro r outside compact rest
  rw [List.cons_append, run_bar outside compact]
  exact h.run (r.onLevel r.level.split) outside compact rest

theorem Refuses.group (h : Refuses text) : Refuses ('(' :: '?' :: ':' :: text ++ [')']) := by
  refine ⟨by simp, by simp [NoMark], ?_⟩
  intro r outside compact rest
  have opened := run_openGroup outside compact (text ++ ([')'] ++ rest))
  rw [List.append_assoc]
  exact opened.trans (h.run r.inGroup outside compact _)

end Reader

namespace Tree

theorem depthAll_eq (ts : List Tree) : depthAll ts = (ts.map depth).foldr max 0 := by
  induction ts with
  | nil => rfl
  | cons t ts ih => rw [depthAll, ih, List.map_cons, List.foldr_cons]

theorem depth_ofItems (ts : List Tree) : (ofItems ts).depth = levels (ts.map depth) := by
  cases ts with
  | nil => rfl
  | cons t ts =>
    cases ts with
    | nil => rfl
    | cons u ts => exact congrArg (· + 1) (depthAll_eq (t :: u :: ts))

end Tree

theorem depth_treeOf {bs : List (List Tree)} (some : bs ≠ []) :
    (treeOf bs).depth = levels ((bs.map .ofItems).map Tree.depth) := by
  obtain ⟨b, bs, rfl⟩ := List.exists_cons_of_ne_nil some
  cases bs with
  | nil => rfl
  | cons c bs => exact congrArg (· + 1) (Tree.depthAll_eq ((b :: c :: bs).map .ofItems))

open Reader

variable {U : Tables} {text : List Char} {ns : List Nat} {ahead : Bool}
  {R : List Char → List Char → Prop}

/-- What is read of a text without lookahead. It is nested to the given depths, and matches by the
relation if the classes are known. -/
def Role.ReadAs (U : Tables) : Role → List Char → List Nat →
    (List Char → List Char → Prop) → Prop
  | .part, text, ns, R => ∃ t, ReadsPart text t ∧ (∀ changes, t ≠ .flags changes) ∧
      [t.depth] = ns ∧ (U.Known → t.Means R)
  | .branch, text, ns, R => ∃ ts, Reader.Reads text [ts] ∧ ts.map Tree.depth = ns ∧
      (U.Known → Tree.MeanInTurn ts R)
  | .pattern, text, ns, R => ∃ bs, Reader.Reads text bs ∧ (bs.map .ofItems).map Tree.depth = ns ∧
      (U.Known → Tree.MeanAny (bs.map .ofItems) R)

/-- A text without lookahead is read as what it matches, and one with a lookahead is refused. -/
theorem Written.reads {role : Role} (h : Written U role text ns ahead R) :
    (ahead = false → role.ReadAs U text ns R) ∧ (ahead = true → Refuses text) := by
  induction h with
  | @char _ c h =>
    refine ⟨fun _ => ?_, nofun⟩
    exact ⟨_, readsPart_of_atomReads h.atomReads, nofun, rfl, fun _ => .literal c⟩
  | set h =>
    refine ⟨fun _ => ?_, nofun⟩
    obtain ⟨k, reads, rfl, denotes⟩ := h.reads
    exact ⟨_, reads, nofun, rfl, fun known => .set (denotes known)⟩
  | group _ ih =>
    refine ⟨fun none => ?_, fun some => (ih.2 some).group⟩
    obtain ⟨bs, reads, rfl, means⟩ := ih.1 none
    refine ⟨_, reads.group, nofun, ?_, fun known => (means known).ofBranches.group⟩
    rw [Tree.depth, depth_treeOf reads.some]
  | lookahead negated _ _ =>
    refine ⟨nofun, fun _ => ?_⟩
    have sign : (if negated then '!' else '=') = '=' ∨ (if negated then '!' else '=') = '!' := by
      cases negated <;> simp
    exact refuses_lookaround sign _
  | nothing => exact ⟨fun _ => ⟨[], reads_nil, rfl, fun _ => .nil⟩, nofun⟩
  | alone _ ih =>
    refine ⟨fun none => ?_, ih.2⟩
    obtain ⟨t, reads, -, depth, means⟩ := ih.1 none
    exact ⟨[t], reads.reads, depth, fun known => Tree.meanInTurn_singleton.mpr (means known)⟩
  | repeated _ b ih =>
    refine ⟨fun none => ?_, fun some => (ih.2 some).before _⟩
    obtain ⟨t, reads, noFlags, depth, means⟩ := ih.1 none
    refine ⟨_, reads_repetition reads noFlags b, ?_,
      fun known => Tree.meanInTurn_singleton.mpr ((means known).repetition b.ordered)⟩
    cases depth
    rfl
  | @append _ _ _ _ ahead _ _ _ _ _ ih ih' =>
    refine ⟨fun none => ?_, fun some => ?_⟩
    · rw [Bool.or_eq_false_iff] at none
      obtain ⟨ts, reads, rfl, means⟩ := ih.1 none.1
      obtain ⟨us, reads', rfl, means'⟩ := ih'.1 none.2
      refine ⟨_, reads.append reads', List.map_append, fun known => ?_⟩
      exact (means known).append (means' known)
    · cases ahead with
      | true => exact (ih.2 rfl).before _
      | false =>
        obtain ⟨ts, reads, -, -⟩ := ih.1 rfl
        exact reads.refuses (ih'.2 some)
  | branch _ ih =>
    refine ⟨fun none => ?_, ih.2⟩
    obtain ⟨ts, reads, rfl, means⟩ := ih.1 none
    refine ⟨[ts], reads, ?_, fun known => Tree.meanAny_singleton.mpr (means known).ofItems⟩
    rw [← Tree.depth_ofItems]
    rfl
  | @or _ _ _ _ ahead _ _ _ _ _ ih ih' =>
    refine ⟨fun none => ?_, fun some => ?_⟩
    · rw [Bool.or_eq_false_iff] at none
      obtain ⟨bs, reads, rfl, means⟩ := ih.1 none.1
      obtain ⟨cs, reads', rfl, means'⟩ := ih'.1 none.2
      refine ⟨_, reads.branches reads', by simp, fun known => ?_⟩
      rw [List.map_append]
      exact (means known).append (means' known)
    · cases ahead with
      | true => exact (ih.2 rfl).before _
      | false =>
        obtain ⟨bs, reads, -, -⟩ := ih.1 rfl
        exact reads.refuses (ih'.2 some).branch

/-- A text is nested to one depth only, however it is taken apart. -/
theorem Written.withinNesting {text : String} (h : Written U .pattern text.toList ns false R)
    (le : levels ns ≤ nestingLimit) : WithinNesting U text := by
  intro ns' R' h'
  obtain ⟨bs, reads, rfl, -⟩ := h.reads.1 rfl
  obtain ⟨bs', reads', rfl, -⟩ := h'.reads.1 rfl
  have same : treeOf bs = treeOf bs' := Except.ok.inj (reads.run_start.symm.trans reads'.run_start)
  rwa [← depth_treeOf reads'.some, ← same, depth_treeOf reads.some]

/-- A class on its own becomes what classes become of which the ranges rise. -/
theorem standsFor_ofRanges {r : Ranges} (rising : r.Rising) :
    (Normal.ofRanges r false).toHir.StandsFor r.chars := by
  unfold Normal.ofRanges
  split
  · next c single =>
    have only : r.chars = .single c := CharSet.ext_mem fun d =>
      (Ranges.mem_of_single? single).trans CharSet.mem_single.symm
    rw [only]
    exact .one c
  · next notSingle =>
    split
    · next empty =>
      have row : r.row = [] := List.isEmpty_iff.mp empty
      have none : r.chars = ∅ := by simp [Ranges.chars, row, CharSet.ofIntervals]
      rw [none, Normal.toHir, row]
      exact .none _
    · next some =>
      have nonempty : r.row ≠ [] := fun none => some (List.isEmpty_iff.mpr none)
      obtain ⟨i, hi⟩ := List.exists_mem_of_ne_nil r.row nonempty
      have first : i.lo ∈ r.chars := Ranges.mem_chars.mpr ⟨i, hi, Char.le_refl _, i.lo_le_hi⟩
      refine .several (CharSet.several_of_ne_single first ?_) fun c => Ranges.mem_chars.symm
      intro only
      have row : r.row = [Interval.single i.lo] := rising.row_of_single only
      have single : r.single? = .some i.lo := by simp [Ranges.single?, row, Interval.single]
      rw [notSingle] at single
      cases single

/-- A pattern that is a class stands for one of the characters of the class. -/
theorem ofText_class {text : String} {k : ClassTree} (reads : ReadsPart text.toList (.set k))
    (flat : k.depth ≤ nestingLimit) :
    Normal.ofText .usual text = (k.ranges .usual).map fun r => .ofRanges r false := by
  have tree : Tree.ofText text.toList = .ok (.set k) := by
    unfold Tree.ofText
    rw [reads.reads.run_start]
    exact if_pos flat
  have normal : (Tree.set k).normal .usual =
      (k.ranges .usual).map fun r => (Normal.ofRanges r false, .usual) := by
    rw [Tree.normal]
    cases k.ranges .usual <;> rfl
  unfold Normal.ofText
  simp only [tree, bind, Except.bind, normal]
  cases k.ranges .usual <;> rfl

/-- The classes that the standard parser knows. -/
def Tables.standard : Tables where
  shorthand k := k.chars true
  property name := (Property.ofText name false).members.toOption

theorem Tables.standard_property (name : List Char) :
    standard.property name = (Property.ofText name false).members.toOption := rfl

theorem Tables.known_standard : standard.Known := by
  refine ⟨fun _ => rfl, fun name s found => ?_⟩
  rw [standard_property] at found
  cases members : (Property.ofText name false).members with
  | error e => simp [members, Except.toOption] at found
  | ok t => simpa [members, Except.toOption] using found

namespace Parser

theorem parse_standard (o : Options) (text : String) :
    standard.parse o text = (Normal.ofText (.initial o) text).map Normal.toHir := by
  change (Normal.ofText (.initial o) text >>= fun p => pure p.toHir) = _
  cases Normal.ofText (.initial o) text <;> rfl

theorem proper_standard {o : Options} {text : String} {h : Hir}
    (ok : standard.parse o text = .ok h) : ∀ x ∈ h.walk, x.Proper True := by
  obtain ⟨p, read, ⟨⟩⟩ := bind_eq_ok.mp ok
  exact Normal.proper_toHir (sound_of_ofText read)

theorem shaped_standard : standard.Shaped :=
  fun _ _ _ ok x hx => (proper_standard ok x hx).1

theorem textual_standard : standard.Textual :=
  fun _ _ _ ok x hx => (proper_standard ok x hx).2.1

theorem readsClasses_standard : standard.ReadsClasses .standard := by
  intro text n s written
  obtain ⟨k, reads, rfl, denotes⟩ := written.reads
  obtain ⟨r, ok, rising, rfl⟩ := denotes Tables.known_standard
  have flat : k.depth ≤ nestingLimit := Nat.le_trans written.depth_le (by decide)
  refine ⟨_, ?_, standsFor_ofRanges rising⟩
  rw [parse_standard, ofText_class reads flat, ok]
  rfl

theorem readsPatterns_standard : standard.ReadsPatterns .standard := by
  intro text ns R written le
  obtain ⟨bs, reads, rfl, means⟩ := written.reads.1 rfl
  obtain ⟨p, normal, sound, same⟩ := (means Tables.known_standard).ofBranches
  have flat : (treeOf bs).depth ≤ nestingLimit := depth_treeOf reads.some ▸ le
  have tree : Tree.ofText text.toList = .ok (treeOf bs) := by
    unfold Tree.ofText
    rw [reads.run_start]
    exact if_pos flat
  refine ⟨p.toHir, ?_, ?_, ?_⟩
  · have ofText : Normal.ofText .usual text = .ok p := by
      unfold Normal.ofText
      rw [tree]
      simp only [bind, Except.bind, treeOf, normal]
      rfl
    rw [parse_standard, ofText]
    rfl
  · intro x hx
    exact Bool.eq_false_iff.mpr (Normal.proper_toHir sound x hx).2.2
  · rw [Normal.matches_toHir sound, same fun _ _ => False]

theorem refusesLookahead_standard : standard.RefusesLookahead .standard := by
  intro text ns R written
  have refused := (written.reads.2 rfl).run Reader.start rfl rfl []
  rw [List.append_nil] at refused
  refine ⟨.lookaround, ?_⟩
  have tree : Tree.ofText text.toList = .error .lookaround := by
    unfold Tree.ofText
    rw [refused]
    rfl
  have ofText : Normal.ofText .usual text = .error .lookaround := by
    unfold Normal.ofText
    rw [tree]
    rfl
  rw [parse_standard, ofText]
  rfl

theorem knowsNames_standard : standard.KnowsNames := by
  intro name plain
  have text : (braced name).toList = '\\' :: ('p' :: '{' :: name.toList ++ ['}']) := by
    simp [braced]
  have reads := readsPart_of_escapesTo (escapesTo_braces plain)
  rw [← text] at reads
  have read := ofText_class reads (Nat.zero_le _)
  rw [ranges_property] at read
  have parsed := parse_standard {} (braced name)
  rw [read] at parsed
  cases members : (Property.ofText name.toList false).members with
  | error e =>
    rw [members] at parsed
    exact .inl ⟨_, parsed⟩
  | ok s =>
    rw [members] at parsed
    have stands := standsFor_ofRanges (Ranges.rising_ofSet s)
    rw [Ranges.chars_ofSet] at stands
    exact .inr ⟨_, s, parsed, stands⟩

end Parser

end PatternAutomata.Pattern
