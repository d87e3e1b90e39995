/-!
# Spans of a text

Offsets count the bytes of a text's UTF-8 form. A span is usable when it lies inside the text and
both of its ends fall between two characters; its window is then the list of characters inside.
-/
namespace PatternAutomata

/-- A stretch of a text, from one byte offset to another. -/
structure Span where
  start : Nat
  stop : Nat
  deriving DecidableEq

namespace Span

def isOrdered (s : Span) : Bool := s.start ≤ s.stop

def isEmpty (s : Span) : Bool := s.start == s.stop

def size (s : Span) : Nat := s.stop - s.start

end Span

def byteSize : List Char → Nat
  | [] => 0
  | c :: cs => c.utf8Size + byteSize cs

/-- Divides a list of characters after `n` bytes, if that falls between two characters. -/
def splitBytes? : Nat → List Char → Option (List Char × List Char)
  | 0, cs => some ([], cs)
  | _ + 1, [] => none
  | n + 1, c :: cs =>
    if c.utf8Size ≤ n + 1 then
      (splitBytes? (n + 1 - c.utf8Size) cs).map fun (taken, rest) => (c :: taken, rest)
    else none

/-- What a search is given: a text, the span to stay in, and whether the earliest end is wanted
instead of the latest. -/
structure Input where
  text : String
  span : Span
  earliest : Bool

namespace Input

/-- A search of a whole text for the latest end. -/
def ofText (text : String) : Input := ⟨text, ⟨0, text.utf8ByteSize⟩, false⟩

/-- The characters inside the span, if the span is usable. -/
def window? (input : Input) : Option (List Char) :=
  if input.span.isOrdered then do
    let (inside, _) ← splitBytes? input.span.stop input.text.toList
    let (_, window) ← splitBytes? input.span.start inside
    some window
  else none

/-- Whether the span lies inside the text and cuts no character. -/
def isValid (input : Input) : Bool := input.window?.isSome

end Input

/-- A match: the stretch of the text that was consumed. -/
structure Match where
  text : String
  span : Span
  deriving DecidableEq

namespace Match

def size (m : Match) : Nat := m.span.size

def isEmpty (m : Match) : Bool := m.span.isEmpty

def consumed (m : Match) : String :=
  String.ofList ((Input.mk m.text m.span false).window?.getD [])

end Match

end PatternAutomata
