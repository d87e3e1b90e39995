import PatternAutomata.Pattern.Scanner
import PatternAutomata.Pattern.Tree
import PatternAutomata.Unicode.Later

/-!
# What a parenthesis opens

An opening parenthesis starts a group that captures, with or without a name, or one that does not,
with or without flags; or it encloses flags only.
-/
namespace PatternAutomata.Pattern

/-- What an opening parenthesis stands for. -/
inductive Opening where
  | group (kind : GroupKind)
  | flags (changes : FlagChanges)

def Flag.ofChar? : Char → Option Flag
  | 'i' => some .caseInsensitive
  | 'm' => some .multiLine
  | 's' => some .dotMatchesNewline
  | 'U' => some .swapGreed
  | 'u' => some .unicode
  | 'R' => some .crlf
  | 'x' => some .spaced
  | _ => none

/-- The changes that a row of flags asks for. A hyphen negates the flags after it, and no flag
comes twice. -/
def flagChanges (negated : Bool) (done : FlagChanges) : List Char → Except ReadError FlagChanges
  | [] => .ok done
  | '-' :: cs => if negated then .error .flagNegatedTwice else flagChanges true done cs
  | c :: cs =>
    match Flag.ofChar? c with
    | none => .error .flagUnknown
    | some flag =>
      if (done.value? flag).isSome then .error .flagDuplicate
      else flagChanges negated (done ++ [(flag, !negated)]) cs

/-- Flags after a question mark, and the colon or parenthesis at their end. -/
def flagGroup : Scanner Opening := do
  .needMore .groupUnclosed
  let letters ← .takeWhile false fun c => c != ':' && c != ')'
  let changes ← .ofExcept (flagChanges false [] letters)
  .needMore .flagEnds
  if letters.getLast? = some '-' then .fail .flagDangling
  else if ← .accept ":" then return .group (.plain changes)
  else
    .drop 1
    if changes.isEmpty then .fail .repetitionMissing else return .flags changes

/-- The characters that names of groups can start with. -/
def nameStart : CharSet := Unicode.Rule.laterAlphabetic.chars ∪ CharSet.single '_'

/-- The characters that names of groups consist of. -/
def nameChars : CharSet :=
  nameStart ∪ Unicode.Rule.laterNumber.chars ∪
    CharSet.ofRanges [('.', '.'), ('[', '['), (']', ']')]

def isName : List Char → Bool
  | [] => true
  | c :: cs => nameStart.contains c && cs.all nameChars.contains

/-- The name of a group, and the angle bracket at its end. The names of other groups are taken. -/
def groupName (taken : List (List Char)) : Scanner (List Char) := do
  let name ← .takeWhile false (· != '>')
  if !isName name then .fail .nameCharacter
  else if !(← .accept ">") then .fail .nameUnclosed
  else if name.isEmpty then .fail .nameEmpty
  else if taken.contains name then .fail .nameDuplicate
  else return name

/-- Whether the text after an opening parenthesis asks for a lookaround. -/
def isLookaround : List Char → Bool
  | '?' :: '=' :: _ => true
  | '?' :: '!' :: _ => true
  | '?' :: '<' :: '=' :: _ => true
  | '?' :: '<' :: '!' :: _ => true
  | _ => false

/-- What an opening parenthesis stands for, which is behind. A group that captures gets the given
index. -/
def opening (spaced : Bool) (index : Nat) (taken : List (List Char)) : Scanner Opening := do
  .skip spaced
  if isLookaround (← .ahead) then .fail .lookaround
  else if ← .accept "?P<" then return .group (.capture index (some (← groupName taken)))
  else if ← .accept "?<" then return .group (.capture index (some (← groupName taken)))
  else if ← .accept "?" then flagGroup
  else return .group (.capture index none)

end PatternAutomata.Pattern
