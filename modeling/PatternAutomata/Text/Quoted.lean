import PatternAutomata.Unicode.Later

/-!
# Quoted text

Texts and characters are quoted so that the result is printable on one line: the usual short
escapes, and the code point in hexadecimal for any character that cannot be shown on its own.
-/
namespace PatternAutomata

/-- A code point in hexadecimal, with small or capital letters. -/
def hexadecimal (capital : Bool) (c : Char) : String :=
  let digits := Nat.toDigits 16 c.toNat
  String.ofList (if capital then digits.map Char.toUpper else digits)

namespace Unicode.Rule

/-- Characters without a visible form of their own, except the blank. -/
def invisible : Rule :=
  (categories [.control, .format, .privateUse, .spaceSeparator, .lineSeparator,
    .paragraphSeparator] ∪ laterUnassigned ∪ defaultIgnorableCodePoint) \ .ranges "20"

/-- Characters that join with the one before them. The halfwidth voicing marks of Katakana stand on
their own. -/
def joining : Rule := laterGraphemeExtend \ .ranges "FF9E-FF9F"

end Unicode.Rule

/-- The characters that are never shown as themselves. -/
def concealed : CharSet := (Unicode.Rule.invisible ∪ Unicode.Rule.joining).chars

/-- A character as it stands inside a quotation with the given quote. -/
def escapeIn (quote c : Char) : String :=
  if c = '\x00' then "\\0"
  else if c = '\t' then "\\t"
  else if c = '\n' then "\\n"
  else if c = '\r' then "\\r"
  else if c = '\\' then "\\\\"
  else if c = quote then String.ofList ['\\', quote]
  else if c ∈ concealed then "\\u\x7b" ++ hexadecimal false c ++ "\x7d"
  else c.toString

def quoteChar (c : Char) : String := "'" ++ escapeIn '\'' c ++ "'"

def quoteText (text : String) : String :=
  "\"" ++ String.join (text.toList.map (escapeIn '"')) ++ "\""

end PatternAutomata
