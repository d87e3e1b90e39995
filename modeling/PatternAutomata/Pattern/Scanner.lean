import PatternAutomata.Pattern.Error
import PatternAutomata.Unicode.Names

/-!
# Scanners

A scanner reads something from the front of a text, or fails. What it leaves is never longer than
what it was given, so a loop that takes a character before each scan comes to its end.
-/
namespace PatternAutomata.Pattern

def isBlank (c : Char) : Bool := Unicode.whitespace.contains c

/-- What follows the blanks and comments at the front of a text. A comment runs from a hash to the
end of the line. -/
def dropBlanks (inComment : Bool) : List Char → List Char
  | [] => []
  | c :: cs =>
    if inComment then dropBlanks (c != '\n') cs
    else if c = '#' then dropBlanks true cs
    else if isBlank c then dropBlanks false cs
    else c :: cs

theorem length_dropBlanks_le (inComment : Bool) (cs : List Char) :
    (dropBlanks inComment cs).length ≤ cs.length := by
  induction cs generalizing inComment with
  | nil => simp [dropBlanks]
  | cons c cs ih =>
    unfold dropBlanks
    split
    · exact Nat.le_succ_of_le (ih _)
    · split
      · exact Nat.le_succ_of_le (ih _)
      · split
        · exact Nat.le_succ_of_le (ih _)
        · exact Nat.le_refl _

/-- The text where the next part of a pattern starts. -/
def nextPart (spaced : Bool) (cs : List Char) : List Char :=
  if spaced then dropBlanks false cs else cs

theorem length_nextPart_le (spaced : Bool) (cs : List Char) :
    (nextPart spaced cs).length ≤ cs.length := by
  unfold nextPart
  split
  · exact length_dropBlanks_le _ _
  · exact Nat.le_refl _

/-- Splits off the leading characters that pass a test, skipping what is skipped after each. -/
def splitWhile (spaced : Bool) (p : Char → Bool) (cs : List Char) : List Char × List Char :=
  match cs with
  | [] => ([], [])
  | c :: rest =>
    if p c then
      let (more, left) := splitWhile spaced p (nextPart spaced rest)
      (c :: more, left)
    else ([], c :: rest)
termination_by cs.length
decreasing_by
  have := length_nextPart_le spaced rest
  simp only [List.length_cons]
  omega

theorem length_splitWhile_le (spaced : Bool) (p : Char → Bool) (cs : List Char) :
    (splitWhile spaced p cs).2.length ≤ cs.length := by
  fun_induction splitWhile spaced p cs with
  | case1 => simp
  | case2 c rest _ more left h ih =>
    have := length_nextPart_le spaced rest
    simp only [h, List.length_cons] at ih ⊢
    omega
  | case3 => simp

/-- Reads a value from the front of a text. -/
structure Scanner (α : Type) where
  run : List Char → Except ReadError (α × List Char)
  shrinks : ∀ {cs a rest}, run cs = .ok (a, rest) → rest.length ≤ cs.length

namespace Scanner

instance : Monad Scanner where
  pure a := ⟨fun cs => .ok (a, cs), fun h => by cases h; exact Nat.le_refl _⟩
  bind s f :=
    { run := fun cs =>
        match s.run cs with
        | .error e => .error e
        | .ok (a, rest) => (f a).run rest
      shrinks := fun {cs b rest} h => by
        match k : s.run cs with
        | .error e => simp [k] at h
        | .ok (a, left) =>
          simp only [k] at h
          exact Nat.le_trans ((f a).shrinks h) (s.shrinks k) }

def fail (e : ReadError) : Scanner α := ⟨fun _ => .error e, fun h => by cases h⟩

/-- A value that is known already, or the error it came to. -/
def ofExcept : Except ReadError α → Scanner α
  | .ok a => pure a
  | .error e => fail e

/-- The text ahead, which is left as it is. -/
def ahead : Scanner (List Char) :=
  ⟨fun cs => .ok (cs, cs), fun h => by cases h; exact Nat.le_refl _⟩

/-- Skips the blanks and comments ahead if they are to be skipped. -/
def skip (spaced : Bool) : Scanner Unit where
  run cs := .ok ((), nextPart spaced cs)
  shrinks h := by cases h; exact length_nextPart_le _ _

/-- Takes a number of characters away, or what there is. -/
def drop (n : Nat) : Scanner Unit where
  run cs := .ok ((), cs.drop n)
  shrinks h := by cases h; simp

/-- Takes the leading characters that pass a test, skipping what is skipped after each. -/
def takeWhile (spaced : Bool) (p : Char → Bool) : Scanner (List Char) where
  run cs := .ok (splitWhile spaced p cs)
  shrinks h := by
    have := congrArg Prod.snd (Except.ok.inj h)
    simp only at this
    rw [← this]
    exact length_splitWhile_le _ _ _

/-- Takes the given text away if it is ahead, and tells whether it was. -/
def accept (text : String) : Scanner Bool := do
  if text.toList.isPrefixOf (← ahead) then
    drop text.length
    return true
  else return false

/-- Fails if nothing is ahead. -/
def needMore (e : ReadError) : Scanner Unit := do
  if (← ahead).isEmpty then fail e

def next (e : ReadError) : Scanner Char := do
  match ← ahead with
  | [] => fail e
  | c :: _ =>
    drop 1
    return c

/-- Takes the given text, skips what is skipped after it, and fails at the end of the pattern. -/
def through (spaced : Bool) (text : String) (e : ReadError) : Scanner Bool := do
  let found ← accept text
  if found then
    skip spaced
    needMore e
  return found

end Scanner

end PatternAutomata.Pattern
