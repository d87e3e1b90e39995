import PatternAutomata.CharSet.Printer
import PatternAutomata.Pattern.Error
import PatternAutomata.Pattern.Tree
import PatternAutomata.Proofs.Lowering
import Mathlib.Logic.Relation

/-!
# The rules of patterns

How patterns are written and what they match, as far as expressions are written in them. The rules
say what a text means and how deep it is nested, and nothing about how it is read. What is expected
of a parser is told by them: what it makes of a text that follows the rules matches by the relation
that the rules give (`Parser.ReadsPatterns`, `Parser.ReadsClasses`), and a text with a lookahead in
it is refused (`Parser.RefusesLookahead`).
-/
namespace PatternAutomata

open Pattern Relation

/-- The set has at least two characters. -/
def CharSet.Several (s : CharSet) : Prop := ∃ c ∈ s, ∃ d ∈ s, c ≠ d

theorem CharSet.Several.mono {s t : CharSet} (h : s.Several) (sub : ∀ c ∈ s, c ∈ t) :
    t.Several := by
  obtain ⟨c, hc, d, hd, different⟩ := h
  exact ⟨c, sub c hc, d, sub d hd, different⟩

theorem CharSet.several_of_ne_single {s : CharSet} {c : Char} (mem : c ∈ s)
    (more : s ≠ .single c) : s.Several := by
  by_contra few
  apply more
  apply CharSet.ext_mem
  intro d
  rw [CharSet.mem_single]
  constructor
  · intro hd
    by_contra different
    exact few ⟨d, hd, c, mem, different⟩
  · rintro rfl
    exact mem

namespace Pattern

/-- The classes of characters that are known by a sign or by a name. -/
structure Tables where
  shorthand : Shorthand → CharSet
  /-- The characters that a text between the braces of `\p` stands for, if it is a name of some. -/
  property : List Char → Option CharSet

/-- There is more than one digit, blank and letter of words, and more than one letter, number,
decimal digit and control character. -/
structure Tables.Several (U : Tables) : Prop where
  shorthand : ∀ k, (U.shorthand k).Several
  property : ∀ name ∈ ["L", "N", "Nd", "Cc"], ∃ s, U.property name.toList = some s ∧ s.Several

/-- How deep something is nested, given how deep its parts are. A single part makes no level. -/
def levels : List Nat → Nat
  | [] => 0
  | [n] => n
  | ns => ns.foldr max 0 + 1

/-- A character is written as itself if it means nothing in patterns, after a backslash if it does,
and in any case by its code point. -/
inductive WritesChar : List Char → Char → Prop where
  | plain {c : Char} (h : c ∉ metacharacters) : WritesChar [c] c
  | escaped {c : Char} (h : c ∈ metacharacters) : WritesChar ['\\', c] c
  | code (c : Char) : WritesChar ('\\' :: 'x' :: '{' :: (hexadecimal true c).toList ++ ['}']) c

/-- A character or two of them with a hyphen between. -/
inductive WritesInterval : List Char → Interval → Prop where
  | char {text : List Char} {c : Char} (h : WritesChar text c) : WritesInterval text (.single c)
  | range {text text' : List Char} {i : Interval} (lo : WritesChar text i.lo)
      (hi : WritesChar text' i.hi) : WritesInterval (text ++ '-' :: text') i

/-- The letter that stands for a class after a backslash. -/
def Shorthand.sign : Shorthand → Char
  | digit => 'd'
  | space => 's'
  | word => 'w'

/-- The letter that stands for all but a class. -/
def Shorthand.otherSign : Shorthand → Char
  | digit => 'D'
  | space => 'S'
  | word => 'W'

section
variable (U : Tables)

/-- A class that is written with a backslash. -/
inductive WritesEscape : List Char → CharSet → Prop where
  | shorthand (k : Shorthand) : WritesEscape ['\\', k.sign] (U.shorthand k)
  | notShorthand (k : Shorthand) : WritesEscape ['\\', k.otherSign] (U.shorthand k).negate
  | letter {c : Char} (h : c.isAlpha = true) {s : CharSet} (known : U.property [c] = some s) :
      WritesEscape ['\\', 'p', c] s
  | name {name : List Char} (plain : '}' ∉ name) {s : CharSet} (known : U.property name = some s) :
      WritesEscape ('\\' :: 'p' :: '{' :: name ++ ['}']) s

/-- Something between brackets. -/
inductive WritesItem : List Char → CharSet → Prop where
  | interval {text : List Char} {i : Interval} (h : WritesInterval text i) :
      WritesItem text (.range i.lo i.hi)
  | escape {text : List Char} {s : CharSet} (h : WritesEscape U text s) : WritesItem text s

/-- Several things between brackets, which are counted. -/
inductive WritesItems : List Char → Nat → CharSet → Prop where
  | one {text : List Char} {s : CharSet} (h : WritesItem U text s) : WritesItems text 1 s
  | more {text rest : List Char} {n : Nat} {s t : CharSet} (first : WritesItem U text s)
      (others : WritesItems rest n t) : WritesItems (text ++ rest) (n + 1) (s ∪ t)

/-- A class as a part of a pattern, and how deep it is nested. -/
inductive WritesClass : List Char → Nat → CharSet → Prop where
  | escape {text : List Char} {s : CharSet} (h : WritesEscape U text s) : WritesClass text 0 s
  | bracketed {text : List Char} {n : Nat} {s : CharSet} (h : WritesItems U text n s) :
      WritesClass ('[' :: text ++ [']']) (levels (.replicate n 0) + 1) s
  /-- All characters but those of an interval. -/
  | outside {text : List Char} {i : Interval} (h : WritesInterval text i) :
      WritesClass ('[' :: '^' :: text ++ [']']) 1 (CharSet.range i.lo i.hi).negate

end

theorem levels_le {ns : List Nat} {k : Nat} (h : ∀ n ∈ ns, n ≤ k) : levels ns ≤ k + 1 := by
  have foldr : ns.foldr max 0 ≤ k := by
    induction ns with
    | nil => exact Nat.zero_le k
    | cons n ns ih =>
      obtain ⟨first, others⟩ := List.forall_mem_cons.mp h
      exact Nat.max_le.mpr ⟨first, ih others⟩
  unfold levels
  split
  · exact Nat.zero_le _
  · exact Nat.le_succ_of_le (h _ (List.mem_singleton_self _))
  · exact Nat.succ_le_succ foldr

theorem WritesClass.depth_le {U : Tables} {text : List Char} {n : Nat} {s : CharSet}
    (h : WritesClass U text n s) : n ≤ 2 := by
  cases h with
  | escape => exact Nat.zero_le 2
  | @bracketed _ n =>
    have flat (d : Nat) (hd : d ∈ List.replicate n 0) : d ≤ 0 :=
      Nat.le_of_eq (List.eq_of_mem_replicate hd)
    exact Nat.succ_le_succ (levels_le flat)
  | outside => exact Nat.le_succ 1

/-- The bounds of a repetition, in numbers of 32 bits. -/
inductive WritesBounds : List Char → Nat → Option Nat → Prop where
  | star : WritesBounds ['*'] 0 none
  | plus : WritesBounds ['+'] 1 none
  | opt : WritesBounds ['?'] 0 (some 1)
  | exact {n : Nat} (small : n < UInt32.size) :
      WritesBounds ('{' :: Nat.toDigits 10 n ++ ['}']) n (some n)
  | atLeast {n : Nat} (small : n < UInt32.size) :
      WritesBounds ('{' :: Nat.toDigits 10 n ++ [',', '}']) n none
  | between {m n : Nat} (small : n < UInt32.size) (ordered : m ≤ n) :
      WritesBounds ('{' :: Nat.toDigits 10 m ++ ',' :: Nat.toDigits 10 n ++ ['}']) m (some n)

/-- What a text is taken as. -/
inductive Role where
  /-- One part, to which bounds after it apply. -/
  | part
  /-- Parts in a row, with bounds or without. -/
  | branch
  /-- Branches with bars between them. -/
  | pattern

/-- The text is written by the rules. What it consists of is nested to the given depths, `ahead`
tells whether there is a lookahead in it, and the relation is what it matches. -/
inductive Written (U : Tables) : Role → List Char → List Nat → (ahead : Bool) →
    (List Char → List Char → Prop) → Prop where
  | char {text : List Char} {c : Char} (h : WritesChar text c) :
      Written U .part text [0] false fun s t => s = c :: t
  | set {text : List Char} {n : Nat} {k : CharSet} (h : WritesClass U text n k) :
      Written U .part text [n] false fun s t => ∃ x ∈ k, s = x :: t
  | group {text : List Char} {ns : List Nat} {ahead : Bool} {R : List Char → List Char → Prop}
      (h : Written U .pattern text ns ahead R) :
      Written U .part ('(' :: '?' :: ':' :: text ++ [')']) [levels ns + 1] ahead R
  | lookahead {text : List Char} {ns : List Nat} {ahead : Bool}
      {R : List Char → List Char → Prop} (negated : Bool) (h : Written U .pattern text ns ahead R) :
      Written U .part ('(' :: '?' :: (if negated then '!' else '=') :: text ++ [')'])
        [levels ns + 1] true fun s t => s = t ∧ ((∃ u, R s u) ↔ negated = false)
  | nothing : Written U .branch [] [] false (· = ·)
  | alone {text : List Char} {ns : List Nat} {ahead : Bool} {R : List Char → List Char → Prop}
      (h : Written U .part text ns ahead R) : Written U .branch text ns ahead R
  | repeated {text bounds : List Char} {n : Nat} {ahead : Bool} {R : List Char → List Char → Prop}
      {min : Nat} {max : Option Nat} (h : Written U .part text [n] ahead R)
      (b : WritesBounds bounds min max) :
      Written U .branch (text ++ bounds) [n + 1] ahead (Times R min max)
  | append {text text' : List Char} {ns ns' : List Nat} {ahead ahead' : Bool}
      {R S : List Char → List Char → Prop} (h : Written U .branch text ns ahead R)
      (h' : Written U .branch text' ns' ahead' S) :
      Written U .branch (text ++ text') (ns ++ ns') (ahead || ahead') (Comp R S)
  | branch {text : List Char} {ns : List Nat} {ahead : Bool} {R : List Char → List Char → Prop}
      (h : Written U .branch text ns ahead R) : Written U .pattern text [levels ns] ahead R
  | or {text text' : List Char} {ns ns' : List Nat} {ahead ahead' : Bool}
      {R S : List Char → List Char → Prop} (h : Written U .pattern text ns ahead R)
      (h' : Written U .pattern text' ns' ahead' S) :
      Written U .pattern (text ++ '|' :: text') (ns ++ ns') (ahead || ahead')
        fun s t => R s t ∨ S s t

/-- However the text is taken apart, it is nested no deeper than patterns may be. -/
def WithinNesting (U : Tables) (text : String) : Prop :=
  ∀ ns R, Written U .pattern text.toList ns false R → levels ns ≤ nestingLimit

/-- What becomes of a class of characters: a literal if it has a single one, and the class of no
byte if it has none. -/
inductive Hir.StandsFor : Hir → CharSet → Prop where
  | one (c : Char) : StandsFor (.literal c.toString.toUTF8) (.single c)
  | none (shown : String) : StandsFor (.byteClass ⟨[], shown⟩) ∅
  | several {ranges : List Interval} {s : CharSet} (several : s.Several)
      (same : ∀ c, (∃ r ∈ ranges, c ∈ r) ↔ c ∈ s) : StandsFor (.charClass ranges) s

variable {Fault : Type}

namespace Parser

/-- Sequences and choices have several parts, and bounds are in order. -/
def Shaped (P : Parser Fault) : Prop :=
  ∀ o text h, P.parse o text = .ok h → ∀ x ∈ h.walk, x.HasShape

/-- All that is read is about text. -/
def Textual (P : Parser Fault) : Prop :=
  ∀ o text h, P.parse o text = .ok h → ∀ x ∈ h.walk, x.IsText

/-- A class is read as its characters. -/
def ReadsClasses (P : Parser Fault) (U : Tables) : Prop :=
  ∀ (text : String) n s, WritesClass U text.toList n s →
    ∃ h, P.parse {} text = .ok h ∧ h.StandsFor s

/-- A pattern that is not nested too deeply is read as what it matches. No place is asked for where
the pattern asks for none. -/
def ReadsPatterns (P : Parser Fault) (U : Tables) : Prop :=
  ∀ (text : String) ns R, Written U .pattern text.toList ns false R → levels ns ≤ nestingLimit →
    ∃ h, P.parse {} text = .ok h ∧ (∀ x ∈ h.walk, x.isLook = false) ∧ h.Matches = R

/-- Lookaheads are not supported. -/
def RefusesLookahead (P : Parser Fault) (U : Tables) : Prop :=
  ∀ (text : String) ns R, Written U .pattern text.toList ns true R →
    ∃ fault, P.parse {} text = .error fault

/-- What stands between the braces of `\p` is a name of some characters, or is refused. -/
def KnowsNames (P : Parser Fault) : Prop :=
  ∀ name : String, '}' ∉ name.toList →
    (∃ fault, P.parse {} (braced name) = .error fault) ∨
      ∃ h s, P.parse {} (braced name) = .ok h ∧ h.StandsFor s

end Parser

end Pattern

end PatternAutomata
