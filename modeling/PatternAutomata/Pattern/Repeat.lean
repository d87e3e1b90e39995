import PatternAutomata.Pattern.Scanner

/-!
# The bounds of a repetition

A repetition is lazy if a question mark follows its sign, and greedy otherwise.
-/
namespace PatternAutomata.Pattern

structure Bounds where
  min : Nat
  max : Option Nat
  greedy : Bool

def decimalValue (digits : List Char) : Nat :=
  digits.foldl (fun n d => 10 * n + (d.toNat - '0'.toNat)) 0

/-- A decimal number with white space around it. One that is missing or too large is an error only
where it is used. -/
def decimal (spaced : Bool) : Scanner (Except ReadError Nat) := do
  let _ ← .takeWhile false isBlank
  let digits ← .takeWhile spaced Char.isDigit
  let _ ← .takeWhile false isBlank
  return if digits.isEmpty then .error .countMissing
    else if decimalValue digits < UInt32.size then .ok (decimalValue digits)
    else .error .decimalTooLarge

def counts (spaced : Bool) : Scanner (Nat × Option Nat) := do
  let min ← decimal spaced
  .needMore .countUnclosed
  if ← .through spaced "," .countUnclosed then
    if (← .ahead).head? = some '}' then return (← .ofExcept min, none)
    else
      let min ← .ofExcept min
      let max ← .ofExcept (← decimal spaced)
      return (min, some max)
  else
    let n ← .ofExcept min
    return (n, some n)

/-- Bounds in braces, after the opening brace. -/
def countedBounds (spaced : Bool) : Scanner Bounds := do
  .skip spaced
  .needMore .countUnclosed
  let (min, max) ← counts spaced
  if !(← .accept "\x7d") then .fail .countUnclosed
  else
    .skip spaced
    let isLazy ← .accept "?"
    if max.any (· < min) then .fail .countReversed else return ⟨min, max, !isLazy⟩

/-- The bounds that a sign stands for, which is behind. -/
def signBounds (min : Nat) (max : Option Nat) : Scanner Bounds := do
  let isLazy ← .accept "?"
  return ⟨min, max, !isLazy⟩

end PatternAutomata.Pattern
