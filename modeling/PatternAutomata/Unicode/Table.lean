import PatternAutomata.CharSet.Basic

/-!
# Tables of characters

A table is a text of words separated by blanks. A word is one code point in hexadecimal, or the two
ends of a range with a hyphen between them.
-/
namespace PatternAutomata.Unicode

/-- The words of a text, divided at blanks. -/
def words (text : List Char) : List (List Char) :=
  let push (c : Char) : List (List Char) → List (List Char)
    | [] => if c.isWhitespace then [] else [[c]]
    | w :: ws => if c.isWhitespace then [] :: w :: ws else (c :: w) :: ws
  (text.foldr push []).filter fun w => !w.isEmpty

/-- The fields of a word, divided at hyphens. -/
def fields : List Char → List (List Char)
  | [] => [[]]
  | c :: cs =>
    match fields cs with
    | [] => [[c]]
    | f :: fs => if c = '-' then [] :: f :: fs else (c :: f) :: fs

def hexDigit? (c : Char) : Option Nat :=
  if '0' ≤ c ∧ c ≤ '9' then some (c.toNat - '0'.toNat)
  else if 'a' ≤ c ∧ c ≤ 'f' then some (c.toNat - 'a'.toNat + 10)
  else if 'A' ≤ c ∧ c ≤ 'F' then some (c.toNat - 'A'.toNat + 10)
  else none

def hexValue (digits : List Char) : Nat :=
  digits.foldl (fun n d => 16 * n + (hexDigit? d).getD 0) 0

/-- The range that a word of a table stands for. -/
def range? (word : List Char) : Option (Char × Char) :=
  match (fields word).map fun f => Char.ofNat (hexValue f) with
  | [a] => some (a, a)
  | [a, b] => some (a, b)
  | _ => none

end PatternAutomata.Unicode

namespace PatternAutomata.CharSet

def ofTables (tables : List String) : CharSet :=
  ofRanges (tables.flatMap fun t => (Unicode.words t.toList).filterMap Unicode.range?)

def ofTable (table : String) : CharSet := ofTables [table]

end PatternAutomata.CharSet
