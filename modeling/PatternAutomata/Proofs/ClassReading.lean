import PatternAutomata.Proofs.ClassMeaning
import PatternAutomata.Proofs.Scanning

/-!
# Reading characters and classes

Characters and classes that are written by the rules are read as what they stand for, whatever
follows (`WritesChar.atomReads`, `WritesClass.reads`). No character is written with a sign in front
that means something else there.
-/
namespace PatternAutomata.Pattern

open Scanner

theorem toNat_isValidChar (c : Char) : c.toNat.isValidChar := c.valid

/-- A code point in braces is read as its character. -/
theorem run_codePoint (c : Char) (count : Nat) (rest : List Char) :
    (codePoint false count).run ('{' :: (hexadecimal true c).toList ++ '}' :: rest) =
      .ok (⟨c, false⟩, rest) := by
  have digits : splitWhile false (· != '}') ((hexadecimal true c).toList ++ '}' :: rest) =
      ((hexadecimal true c).toList, '}' :: rest) := by
    refine splitWhile_append ?_ ?_
    · intro d hd
      simpa using (isHexDigit_of_mem_hexadecimal hd).2
    · simp
  have hex : (hexadecimal true c).toList.all isHexDigit = true :=
    List.all_eq_true.mpr fun d hd => (isHexDigit_of_mem_hexadecimal hd).1
  have some : (hexadecimal true c).toList.isEmpty = false := by
    rw [hexadecimal_eq]
    simp [Nat.toDigits_ne_nil]
  have opened (cs : List Char) : (accept "\x7b").run ('{' :: cs) = .ok (true, cs) := by simp
  have closed : (accept "\x7d").run ('}' :: rest) = .ok (true, rest) := by simp
  have char : hexCharacter false (hexadecimal true c).toList = .ok ⟨c, false⟩ := by
    simp [hexCharacter, hexValue_hexadecimal, toNat_isValidChar]
  simp only [codePoint, List.cons_append, run_bind, run_skip, run_needMore_cons, opened, if_true,
    run_takeWhile, digits, hex, Bool.not_true, Bool.false_eq_true, if_false, closed, some, char,
    run_ofExcept_ok]

/-- A character that means something in patterns stands for itself after a backslash. -/
theorem escapable_of_mem_metacharacters {c : Char} (h : c ∈ metacharacters) :
    isEscapable c = true ∧ c.isDigit = false := by
  have all : (metacharacters.all fun d => isEscapable d && !d.isDigit) = true := by decide
  simpa using List.all_eq_true.mp all c h

theorem run_escape_metacharacter {c : Char} (h : c ∈ metacharacters) (rest : List Char) :
    (escape false).run (c :: rest) = .ok (.literal ⟨c, false⟩, rest) := by
  obtain ⟨escapable, digit⟩ := escapable_of_mem_metacharacters h
  simp [escape, escapable, digit]

theorem run_escape_hex (c : Char) (rest : List Char) :
    (escape false).run ('x' :: '{' :: (hexadecimal true c).toList ++ '}' :: rest) =
      .ok (.literal ⟨c, false⟩, rest) := by
  have letter : isEscapable 'x' = false := by decide
  have read := run_codePoint c 2 rest
  simp only [List.cons_append] at read
  simp [escape, letter, read]

/-- The character starts something: it is a backslash or means nothing in patterns. -/
def Starts (c : Char) : Prop := c = '\\' ∨ c ∉ metacharacters

/-- No character between brackets starts with a sign that has a meaning there. -/
theorem Starts.ne {c d : Char} (h : Starts c) (hd : d ∈ metacharacters) (other : d ≠ '\\') :
    c ≠ d := by
  rintro rfl
  rcases h with rfl | plain
  · exact other rfl
  · exact plain hd

theorem run_bracketStart {c : Char} (h : Starts c) (cs : List Char) :
    (bracketStart false).run (c :: cs) = .ok ((false, []), c :: cs) := by
  have caret : '^' ≠ c := (h.ne (by decide) (by decide)).symm
  have hyphen : c ≠ '-' := h.ne (by decide) (by decide)
  have close : ']' ≠ c := (h.ne (by decide) (by decide)).symm
  simp [bracketStart, through, splitWhile_false, caret, hyphen, close]

/-- The text is read as a part without bounds or further items, inside and outside brackets. -/
def AtomReads (text : List Char) (t : Tree) : Prop :=
  ∃ first more, text = first :: more ∧ Starts first ∧
    ∀ rest, (bracketAtom false first).run (more ++ rest) = .ok (t, rest)

/-- Between brackets the text is read as a class, unless a hyphen follows. -/
def ItemReads (text : List Char) (k : ClassTree) : Prop :=
  ∃ first more, text = first :: more ∧ Starts first ∧ ∀ c rest, c ≠ '-' →
    (bracketItem false first).run (more ++ c :: rest) = .ok (k, c :: rest)

variable {text text' : List Char} {c : Char} {i : Interval} {k : ClassTree} {s : CharSet}
  {U : Tables}

/-- A character is read as itself. -/
theorem WritesChar.atomReads (h : WritesChar text c) : AtomReads text (.literal ⟨c, false⟩) := by
  cases h with
  | plain plain =>
    refine ⟨c, [], rfl, .inr plain, ?_⟩
    intro rest
    have other : c ≠ '\\' := fun e => plain (e ▸ by decide)
    simp [bracketAtom, other]
  | escaped special =>
    refine ⟨'\\', [c], rfl, .inl rfl, ?_⟩
    intro rest
    exact run_escape_metacharacter special rest
  | code =>
    refine ⟨'\\', 'x' :: '{' :: (hexadecimal true c).toList ++ ['}'], by simp, .inl rfl, ?_⟩
    intro rest
    have read := run_escape_hex c rest
    simpa [bracketAtom] using read

theorem AtomReads.item (h : AtomReads text (.literal ⟨c, false⟩)) :
    ItemReads text (.literal ⟨c, false⟩) := by
  obtain ⟨first, more, rfl, start, read⟩ := h
  refine ⟨first, more, rfl, start, ?_⟩
  intro d rest other
  simp [bracketItem, read, continuesRange, itemOf, other]

theorem AtomReads.range {a b : Char} (h : AtomReads text (.literal ⟨a, false⟩))
    (h' : AtomReads text' (.literal ⟨b, false⟩)) (le : a ≤ b) :
    ItemReads (text ++ '-' :: text') (.range ⟨a, false⟩ ⟨b, false⟩) := by
  obtain ⟨first, more, rfl, start, read⟩ := h
  obtain ⟨first', more', rfl, start', read'⟩ := h'
  refine ⟨first, more ++ '-' :: first' :: more', rfl, start, ?_⟩
  intro d rest _
  have close : first' ≠ ']' := start'.ne (by decide) (by decide)
  have hyphen : first' ≠ '-' := start'.ne (by decide) (by decide)
  have range : rangeOf (.literal ⟨a, false⟩) (.literal ⟨b, false⟩) =
      .ok (.range ⟨a, false⟩ ⟨b, false⟩) := if_pos le
  simp [bracketItem, read, read', continuesRange, afterHyphen?, close, hyphen, range]

/-- An interval is read as a class with the interval for its row. -/
theorem WritesInterval.reads (h : WritesInterval text i) :
    ∃ k, ItemReads text k ∧ k.depth = 0 ∧ k.ranges .usual = .ok (.ofSet (.range i.lo i.hi)) := by
  cases h with
  | @char _ c h =>
    refine ⟨_, h.atomReads.item, rfl, ?_⟩
    have joined : Ranges.ofChars [c] = ⟨[Interval.single c]⟩ :=
      Ranges.ofIntervals_of_separated (List.pairwise_singleton ..)
    have row : Ranges.ofSet (.range c c) = ⟨[Interval.single c]⟩ :=
      congrArg (fun r => Ranges.mk [r]) (Interval.between_ends (Interval.single c))
    exact congrArg Except.ok (joined.trans row.symm)
  | range lo hi => exact ⟨_, lo.atomReads.range hi.atomReads i.lo_le_hi, rfl, rfl⟩

/-- After a backslash the text is read as the given class, whatever follows. -/
def EscapesTo (cs : List Char) (k : ClassTree) : Prop :=
  ∀ rest, (escape false).run (cs ++ rest) = .ok (.set k, rest)

theorem EscapesTo.item {cs : List Char} (h : EscapesTo cs k) : ItemReads ('\\' :: cs) k := by
  refine ⟨'\\', cs, rfl, .inl rfl, ?_⟩
  intro d rest other
  have read : (bracketAtom false '\\').run (cs ++ d :: rest) = .ok (.set k, d :: rest) :=
    h (d :: rest)
  simp [bracketItem, read, continuesRange, itemOf, other]

theorem escapesTo_braces {name : List Char} (plain : '}' ∉ name) :
    EscapesTo ('p' :: '{' :: name ++ ['}']) (.property (Property.ofText name false)) := by
  intro rest
  have letter : isEscapable 'p' = false := by decide
  have inside : ∀ c ∈ name, (c != '}') = true := by
    intro c hc
    rw [bne_iff_ne]
    rintro rfl
    exact plain hc
  have split : splitWhile false (· != '}') (name ++ '}' :: rest) = (name, '}' :: rest) :=
    splitWhile_append inside (by simp)
  simp [escape, letter, property, split]

/-- A letter is a name on its own. -/
theorem escapesTo_letter (alpha : c.isAlpha = true) :
    EscapesTo ['p', c] (.property (Property.ofText [c] false)) := by
  have other {d : Char} (h : d.isAlpha = false) : d ≠ c := by
    rintro rfl
    rw [alpha] at h
    cases h
  have name : Property.ofText [c] false = ⟨[c], none, false⟩ := by
    simp [Property.ofText, splitAtFirst, other (d := ':') (by decide), other (d := '=') (by decide)]
  have letter : isEscapable 'p' = false := by decide
  rw [name]
  intro rest
  simp [escape, letter, property, other (d := '{') (by decide),
    (other (d := '\\') (by decide)).symm]

/-- A class with a backslash is read as what it stands for. -/
theorem WritesEscape.reads (h : WritesEscape U text s) : ∃ cs k, text = '\\' :: cs ∧
    EscapesTo cs k ∧ k.depth = 0 ∧ (U.Known → Denotes k s) := by
  cases h with
  | shorthand k =>
    refine ⟨[k.sign], .shorthand k false, rfl, ?_, rfl, fun known => ?_⟩
    · cases k <;> exact fun _ => rfl
    · rw [known.shorthand]
      exact .shorthand k
  | notShorthand k =>
    refine ⟨[k.otherSign], .shorthand k true, rfl, ?_, rfl, fun known => ?_⟩
    · cases k <;> exact fun _ => rfl
    · rw [known.shorthand]
      exact .notShorthand k
  | letter alpha found =>
    exact ⟨_, _, rfl, escapesTo_letter alpha, rfl,
      fun known => .property (known.property _ s found)⟩
  | name plain found =>
    exact ⟨_, _, rfl, escapesTo_braces plain, rfl,
      fun known => .property (known.property _ s found)⟩

theorem WritesItem.reads (h : WritesItem U text s) :
    ∃ k, ItemReads text k ∧ k.depth = 0 ∧ (U.Known → Denotes k s) := by
  cases h with
  | interval h =>
    obtain ⟨k, reads, flat, row⟩ := h.reads
    exact ⟨k, reads, flat, fun _ => .ofSet row⟩
  | escape h =>
    obtain ⟨cs, k, rfl, escapes, flat, denotes⟩ := h.reads
    exact ⟨k, escapes.item, flat, denotes⟩

namespace Reader

/-- In a pattern the text is read as the given part, whatever follows. -/
def ReadsPart (text : List Char) (t : Tree) : Prop :=
  ∀ r : Reader, r.brackets = [] → r.spaced = false → ∀ rest,
    r.run (text ++ rest) = (r.push t).run rest

theorem takeOutside_of_plain (r : Reader) {c : Char} (h : c ∉ metacharacters) :
    r.takeOutside c = pure (r.push (.literal ⟨c, false⟩)) := by
  unfold takeOutside
  split
  all_goals first
    | rfl
    | exact absurd (by decide) h

/-- What is read as a character inside brackets is read as one outside. -/
theorem readsPart_of_atomReads (h : AtomReads text (.literal ⟨c, false⟩)) :
    ReadsPart text (.literal ⟨c, false⟩) := by
  obtain ⟨first, more, rfl, start, read⟩ := h
  intro r outside compact rest
  apply run_cons compact
  unfold take
  rw [outside]
  rcases start with rfl | plain
  · have escaped : (escape false).run (more ++ rest) = .ok (.literal ⟨c, false⟩, rest) :=
      read rest
    simp [takeOutside, compact, escaped]
  · have other : first ≠ '\\' := fun e => plain (e ▸ by decide)
    have itself := read rest
    simp only [bracketAtom, if_neg other, run_pure, Except.ok.injEq, Prod.mk.injEq,
      Tree.literal.injEq, Literal.mk.injEq] at itself
    obtain ⟨⟨rfl, -⟩, none⟩ := itself
    simp [takeOutside_of_plain r plain, none]

theorem readsPart_of_escapesTo {cs : List Char} (h : EscapesTo cs k) :
    ReadsPart ('\\' :: cs) (.set k) := by
  intro r outside compact rest
  apply run_cons compact
  unfold take
  rw [outside]
  simp [takeOutside, compact, h rest]

/-- The same reader inside other classes. -/
def within (r : Reader) (bs : List OpenBracket) : Reader := { r with brackets := bs }

@[simp]
theorem within_within (r : Reader) (bs bs' : List OpenBracket) :
    (r.within bs).within bs' = r.within bs' := rfl

/-- Between brackets the text is read as several classes, up to the closing bracket. -/
def ReadsItems (text : List Char) (ks : List ClassTree) : Prop :=
  ∃ first more, text = first :: more ∧ Starts first ∧
    ∀ (r : Reader) b outer rest, r.brackets = b :: outer → r.spaced = false →
      r.run (text ++ ']' :: rest) =
        (r.within ({ b with items := ks.reverse ++ b.items } :: outer)).run (']' :: rest)

/-- An item that starts with no sign is read as what it stands for. -/
theorem run_item {r : Reader} {b : OpenBracket} {outer : List OpenBracket} {cs rest : List Char}
    (start : Starts c) (read : (bracketItem false c).run cs = .ok (k, rest))
    (inside : r.brackets = b :: outer) (compact : r.spaced = false) :
    r.run (c :: cs) = (r.within (b.push k :: outer)).run rest := by
  have opens : c ≠ '[' := start.ne (by decide) (by decide)
  have closes : c ≠ ']' := start.ne (by decide) (by decide)
  have plain : classOp? c = none := by
    have ampersand : c ≠ '&' := start.ne (by decide) (by decide)
    have hyphen : c ≠ '-' := start.ne (by decide) (by decide)
    have tilde : c ≠ '~' := start.ne (by decide) (by decide)
    simp [classOp?]
  apply run_cons compact
  unfold take
  rw [inside]
  simp [takeInside, opens, closes, operator?, plain, compact, read, within]

theorem readsItems_one (h : ItemReads text k) : ReadsItems text [k] := by
  obtain ⟨first, more, rfl, start, read⟩ := h
  refine ⟨first, more, rfl, start, ?_⟩
  intro r b outer rest inside compact
  exact run_item start (read ']' rest (by decide)) inside compact

theorem ReadsItems.more {ks : List ClassTree} (h : ItemReads text k) (hs : ReadsItems text' ks) :
    ReadsItems (text ++ text') (k :: ks) := by
  obtain ⟨first, more, rfl, start, read⟩ := h
  obtain ⟨first', more', rfl, start', run⟩ := hs
  refine ⟨first, more ++ first' :: more', rfl, start, ?_⟩
  intro r b outer rest inside compact
  -- What comes next does not continue the item as a range.
  have hyphen : first' ≠ '-' := start'.ne (by decide) (by decide)
  have item := run_item start (read first' (more' ++ ']' :: rest) hyphen) inside compact
  have others := run (r.within (b.push k :: outer)) (b.push k) outer rest rfl compact
  simp only [List.cons_append, List.append_assoc] at item others ⊢
  rw [item, others]
  simp [OpenBracket.push]

theorem run_openBracket {r : Reader} (start : Starts c) (outside : r.brackets = [])
    (compact : r.spaced = false) (cs : List Char) :
    r.run ('[' :: c :: cs) = (r.within [⟨false, none, []⟩]).run (c :: cs) ∧
      r.run ('[' :: '^' :: c :: cs) = (r.within [⟨true, none, []⟩]).run (c :: cs) := by
  have hyphen : c ≠ '-' := start.ne (by decide) (by decide)
  have close : ']' ≠ c := (start.ne (by decide) (by decide)).symm
  constructor
  · apply run_cons compact
    unfold take
    rw [outside]
    simp [takeOutside, openBracket, compact, run_bracketStart start, outside, within]
  · apply run_cons compact
    unfold take
    rw [outside]
    simp [takeOutside, openBracket, compact, bracketStart, through, splitWhile_false, outside,
      within, hyphen, close]

theorem run_closeBracket {r : Reader} (outside : r.brackets = []) (compact : r.spaced = false)
    (b : OpenBracket) (cs : List Char) : (r.within [b]).run (']' :: cs) =
      (r.push (.set (.bracketed b.body b.negated))).run cs := by
  refine run_cons compact ?_
  simp [take, takeInside, closeBracket, within, push, outside]

/-- A class in brackets, negated or not. -/
theorem ReadsItems.bracketed {ks : List ClassTree} (h : ReadsItems text ks) :
    ReadsPart ('[' :: text ++ [']']) (.set (.bracketed (.ofItems ks) false)) ∧
      ReadsPart ('[' :: '^' :: text ++ [']']) (.set (.bracketed (.ofItems ks) true)) := by
  obtain ⟨first, more, rfl, start, run⟩ := h
  have whole (negated : Bool) {r : Reader} (outside : r.brackets = []) (compact : r.spaced = false)
      (rest : List Char) : (r.within [⟨negated, none, []⟩]).run (first :: more ++ ']' :: rest) =
        (r.push (.set (.bracketed (.ofItems ks) negated))).run rest := by
    have items := run (r.within [⟨negated, none, []⟩]) ⟨negated, none, []⟩ [] rest rfl compact
    have closed := run_closeBracket outside compact ⟨negated, none, ks.reverse ++ []⟩ rest
    rw [items, within_within, closed]
    simp [OpenBracket.body]
  constructor
  · intro r outside compact rest
    have opened := (run_openBracket start outside compact (more ++ ']' :: rest)).1
    have text : '[' :: (first :: more) ++ [']'] ++ rest =
      '[' :: first :: (more ++ ']' :: rest) := by simp
    rw [text, opened]
    exact whole false outside compact rest
  · intro r outside compact rest
    have opened := (run_openBracket start outside compact (more ++ ']' :: rest)).2
    have text : '[' :: '^' :: (first :: more) ++ [']'] ++ rest =
      '[' :: '^' :: first :: (more ++ ']' :: rest) := by simp
    rw [text, opened]
    exact whole true outside compact rest

end Reader

open Reader

theorem WritesItems.reads {n : Nat} (h : WritesItems U text n s) :
    ∃ ks, ReadsItems text ks ∧ ks.map ClassTree.depth = .replicate n 0 ∧
      (U.Known → DenoteTogether ks s) := by
  induction h with
  | one h =>
    obtain ⟨k, reads, flat, denotes⟩ := h.reads
    refine ⟨[k], readsItems_one reads, ?_, fun known => (denotes known).one⟩
    exact congrArg (fun d => [d]) flat
  | more h _ ih =>
    obtain ⟨k, reads, flat, denotes⟩ := h.reads
    obtain ⟨ks, others, flats, together⟩ := ih
    refine ⟨k :: ks, others.more reads, ?_, fun known => (denotes known).cons (together known)⟩
    rw [List.map_cons, flat, flats, List.replicate_succ]

theorem ClassTree.depthAll_eq (ks : List ClassTree) :
    ClassTree.depthAll ks = (ks.map ClassTree.depth).foldr max 0 := by
  induction ks with
  | nil => rfl
  | cons k ks ih => rw [ClassTree.depthAll, ih, List.map_cons, List.foldr_cons]

theorem ClassTree.depth_ofItems (ks : List ClassTree) :
    (ClassTree.ofItems ks).depth = levels (ks.map ClassTree.depth) := by
  cases ks with
  | nil => rfl
  | cons k ks =>
    cases ks with
    | nil => rfl
    | cons l ks => exact congrArg (· + 1) (ClassTree.depthAll_eq (k :: l :: ks))

/-- A class is read as what it stands for. -/
theorem WritesClass.reads {n : Nat} (h : WritesClass U text n s) :
    ∃ k, ReadsPart text (.set k) ∧ k.depth = n ∧ (U.Known → Denotes k s) := by
  cases h with
  | escape h =>
    obtain ⟨cs, k, rfl, escapes, flat, denotes⟩ := h.reads
    exact ⟨k, readsPart_of_escapesTo escapes, flat, denotes⟩
  | bracketed h =>
    obtain ⟨ks, reads, flat, together⟩ := h.reads
    refine ⟨_, reads.bracketed.1, ?_, fun known => (together known).ofItems.bracketed⟩
    rw [ClassTree.depth, ClassTree.depth_ofItems, flat]
  | outside h =>
    obtain ⟨k, reads, flat, row⟩ := h.reads
    refine ⟨_, (readsItems_one reads).bracketed.2, ?_, fun _ => .outside row⟩
    rw [ClassTree.depth]
    exact congrArg (· + 1) flat

end PatternAutomata.Pattern
