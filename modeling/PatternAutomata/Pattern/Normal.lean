import PatternAutomata.Pattern.Ranges
import PatternAutomata.Pattern.Tree

/-!
# Normal patterns

A normal pattern has no flags left, and its classes are rows of ranges. It is built bottom up by
functions that leave out what has no effect and join what can be joined, so that patterns which
differ in such details only come out equal.
-/
namespace PatternAutomata.Pattern

inductive Normal where
  | empty
  | literal (text : List Char)
  /-- One character of a class. A class can be meant as one of bytes. -/
  | set (ranges : Ranges) (bytes : Bool)
  | look (l : Look)
  | repetition (body : Normal) (min : Nat) (max : Option Nat) (greedy : Bool)
  | capture (index : Nat) (name : Option (List Char)) (body : Normal)
  | sequence (items : List Normal)
  | alternatives (branches : List Normal)

namespace Normal

mutual

def same : Normal → Normal → Bool
  | empty, empty => true
  | literal s, literal t => s = t
  | set s b, set t c => s = t && b = c
  | look l, look m => l = m
  | repetition p m n g, repetition q k l h => same p q && m = k && n = l && g = h
  | capture i s p, capture j t q => i = j && s = t && same p q
  | sequence ps, sequence qs => sameAll ps qs
  | alternatives ps, alternatives qs => sameAll ps qs
  | _, _ => false

def sameAll : List Normal → List Normal → Bool
  | [], [] => true
  | p :: ps, q :: qs => same p q && sameAll ps qs
  | _, _ => false

end

mutual

theorem same_iff : (p q : Normal) → (same p q = true ↔ p = q)
  | empty, q => by cases q <;> simp [same]
  | literal s, q => by cases q <;> simp [same]
  | set s b, q => by cases q <;> simp [same]
  | look l, q => by cases q <;> simp [same]
  | repetition p m n g, q => by cases q <;> simp [same, same_iff p, and_assoc]
  | capture i s p, q => by cases q <;> simp [same, same_iff p, and_assoc]
  | sequence ps, q => by cases q <;> simp [same, sameAll_iff ps]
  | alternatives ps, q => by cases q <;> simp [same, sameAll_iff ps]

theorem sameAll_iff : (ps qs : List Normal) → (sameAll ps qs = true ↔ ps = qs)
  | [], qs => by cases qs <;> simp [sameAll]
  | p :: ps, qs => by cases qs <;> simp [sameAll, same_iff p, sameAll_iff ps]

end

instance : DecidableEq Normal := fun p q => decidable_of_iff _ (same_iff p q)

mutual

def size : Normal → Nat
  | repetition body _ _ _ => size body + 1
  | capture _ _ body => size body + 1
  | sequence items => sizeAll items + 1
  | alternatives branches => sizeAll branches + 1
  | empty | literal _ | set _ _ | look _ => 1

def sizeAll : List Normal → Nat
  | [] => 0
  | p :: ps => size p + sizeAll ps

end

mutual

/-- Whether a pattern can match nothing but the empty text. -/
def isVoid : Normal → Bool
  | empty | look _ => true
  | literal _ | set _ _ => false
  | repetition body _ max _ => max.isSome && isVoid body
  | capture _ _ body => isVoid body
  | sequence items => areVoid items
  | alternatives branches => areVoid branches

def areVoid : List Normal → Bool
  | [] => true
  | p :: ps => isVoid p && areVoid ps

end

/-- One character of a class. A class of one character is a literal, and the empty class counts as
one of bytes. -/
def ofRanges (r : Ranges) (bytes : Bool) : Normal :=
  match r.single? with
  | some c => literal [c]
  | none => if r.isEmpty then set r true else set r bytes

/-- A repetition. What matches only the empty text is repeated at most once. -/
def repeated (body : Normal) (min : Nat) (max : Option Nat) (greedy : Bool) : Normal :=
  let min' := if body.isVoid then Nat.min min 1 else min
  let max' := if body.isVoid then some (max.elim 1 (Nat.min · 1)) else max
  if max' = some 0 ∧ min' = 0 then empty
  else if max' = some 1 ∧ min' = 1 then body
  else repetition body min' max' greedy

/-- The items of a pattern as part of a sequence. -/
def items : Normal → List Normal
  | sequence ps => ps
  | p => [p]

/-- The branches of a pattern as one of several alternatives. -/
def branches : Normal → List Normal
  | alternatives ps => ps
  | p => [p]

/-- Puts a pattern before the items of a sequence. Literals next to each other become one. -/
def cons : Normal → List Normal → List Normal
  | empty, ps => ps
  | literal s, literal t :: ps => literal (s ++ t) :: ps
  | p, ps => p :: ps

def concat (ps : List Normal) : Normal :=
  match (ps.flatMap items).foldr cons [] with
  | [] => empty
  | [p] => p
  | ps => sequence ps

def char? : Normal → Option Char
  | literal [c] => some c
  | _ => none

def ranges? : Normal → Option Ranges
  | set r _ => some r
  | _ => none

/-- The leading items that two sequences share. -/
def commonItems : List Normal → List Normal → List Normal
  | p :: ps, q :: qs => if p = q then p :: commonItems ps qs else []
  | _, _ => []

/-- The leading items that all sequences of a list share. Anything but a sequence shares nothing. -/
def shared : List Normal → List Normal
  | sequence ps :: rest =>
    rest.foldl (fun common p => match p with
      | sequence qs => commonItems common qs
      | _ => []) ps
  | _ => []

/-- Any one of several patterns. Characters become a class, classes become their union, and items
that all branches start with are written once. That is repeated for what follows them, at most the
given number of times. -/
def alternation : (rounds : Nat) → List Normal → Normal
  | rounds, ps =>
    match ps.flatMap branches with
    | [] => ofRanges ∅ true
    | [p] => p
    | qs =>
      match qs.mapM char?, qs.mapM ranges?, shared qs, rounds with
      | some cs, _, _, _ => ofRanges (Ranges.ofChars cs) false
      | none, some rs, _, _ => ofRanges (.unions rs) false
      | none, none, common@(_ :: _), rounds + 1 =>
        let rest := qs.map fun q => concat (q.items.drop common.length)
        concat (common ++ [alternation rounds rest])
      | none, none, _, _ => alternatives qs

def anyOf (ps : List Normal) : Normal := alternation (sizeAll ps) ps

end Normal

end PatternAutomata.Pattern
