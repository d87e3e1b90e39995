import PatternAutomata.Unicode.Property

/-!
# Where texts may be divided

The classes of characters by which a text is divided into characters as users see them, into words
and into sentences, after Unicode 16.0. A class that holds all other characters has no entry.
-/
namespace PatternAutomata.Unicode

namespace Rule

/-- Signs that are written before a number and enclose it. -/
def numberSign : Rule := prependedConcatenationMark \ .ranges "70F"

def hebrewLetter : Rule :=
  .ranges "5D0-5EA 5EF-5F2 FB1D FB1F-FB28 FB2A-FB36 FB38-FB3C FB3E FB40-FB41 FB43-FB44 FB46-FB4F"

def katakanaWord : Rule :=
  .ranges "3031-3035 309B-309C 30A0-30FA 30FC-30FF 31F0-31FF 32D0-32FE 3300-3357 FF66-FF9D
           1AFF0-1AFF3 1AFF5-1AFFB 1AFFD-1AFFE 1B000 1B120-1B122 1B155 1B164-1B167"

/-- Letters that are written without blanks between words, and Hiragana. -/
def unspacedLetter : Rule :=
  .ranges "E01-E30 E32-E33 E40-E46 E81-E82 E84 E86-E8A E8C-EA3 EA5 EA7-EB0 EB2-EB3 EBD EC0-EC4
           EC6 EDC-EDF 1000-102A 103F 1050-1055 105A-105D 1061 1065-1066 106E-1070 1075-1081 108E
           1780-17B3 17D7 17DC 1950-196D 1970-1974 1980-19AB 19B0-19C9 1A20-1A54 1AA7 3041-3096
           309D-309F A9E0-A9E4 A9E6-A9EF A9FA-A9FE AA60-AA76 AA7A AA7E-AAAF AAB1 AAB5-AAB6
           AAB9-AABD AAC0 AAC2 AADB-AADD 11700-1171A 11740-11746 1B001-1B11F 1B132 1B150-1B152"

/-- Letters of words, with some signs that stand between or beside letters. -/
def wordLetter : Rule :=
  (alphabetic \
    (ideographic ∪ graphemeExtend ∪ .category .spacingMark ∪ hebrewLetter ∪ katakanaWord ∪
      unspacedLetter)) ∪
  .ranges "2C2-2C5 2D2-2D7 2DE-2DF 2E5-2EB 2ED 2EF-2FF 55A-55C 55E 58A 5F3 70F A708-A716
           A720-A721 A789-A78A AB5B"

/-- Digits, with some marks that belong to numbers. -/
def wordNumber : Rule :=
  .category .decimalNumber ∪ numberSign ∪ .ranges "66B 19DA"

/-- Small letters. Georgian letters do not count as such. -/
def sentenceLower : Rule :=
  lowercase \ (graphemeExtend ∪ .ranges "10D0-10FA 10FD-10FF")

/-- Capital letters. Georgian letters do not count as such. -/
def sentenceUpper : Rule :=
  (uppercase ∪ .category .titlecaseLetter) \ .ranges "1C90-1CBA 1CBD-1CBF"

def sentenceExtend : Rule :=
  graphemeExtend ∪ .category .spacingMark ∪ .ranges "200D"

/-- The classes of the property Grapheme_Cluster_Break by name. -/
def graphemeBreaks : List (List String × Rule) := [
  (["CN", "Control"],
    (categories [.control, .format, .lineSeparator, .paragraphSeparator] ∪
      (defaultIgnorableCodePoint \ categories Category.all)) \
    (graphemeExtend ∪ prependedConcatenationMark ∪ .ranges "A D 200D")),
  (["CR"], .ranges "D"),
  (["EX", "Extend"], graphemeExtend ∪ emojiModifier),
  (["L"], .ranges "1100-115F A960-A97C"),
  (["LF"], .ranges "A"),
  (["LV"], .every 0xAC00 28 399),
  (["LVT"], .ranges "AC00-D7A3" \ .every 0xAC00 28 399),
  (["PP", "Prepend"], prependedConcatenationMark ∪
    .ranges "D4E 111C2-111C3 113D1 1193F 11941 11A3A 11A84-11A89 11D46 11F02"),
  (["RI", "Regional_Indicator"], regionalIndicator),
  (["SM", "SpacingMark"], (.category .spacingMark ∪ .ranges "E33 EB3") \ (graphemeExtend ∪
    .ranges "102B-102C 1038 1062-1064 1067-106D 1083 1087-108C 108F 109A-109C 1A61 1A63-1A64 AA7B
             AA7D 11720-11721")),
  (["T"], .ranges "11A8-11FF D7CB-D7FB"),
  (["V"], .ranges "1160-11A7 D7B0-D7C6 16D63 16D67-16D6A"),
  (["ZWJ"], .ranges "200D")]

/-- The classes of the property Word_Break by name. -/
def wordBreaks : List (List String × Rule) := [
  (["CR"], .ranges "D"),
  (["DQ", "Double_Quote"], .ranges "22"),
  (["EX", "ExtendNumLet"], .category .connectorPunctuation ∪ .ranges "202F"),
  (["Extend"], graphemeExtend ∪ .category .spacingMark ∪ emojiModifier),
  (["FO", "Format"], .category .format \
    (prependedConcatenationMark ∪ .ranges "200B-200D E0020-E007F")),
  (["HL", "Hebrew_Letter"], hebrewLetter),
  (["KA", "Katakana"], katakanaWord),
  (["LE", "ALetter"], wordLetter),
  (["LF"], .ranges "A"),
  (["MB", "MidNumLet"], .ranges "2E 2018-2019 2024 FE52 FF07 FF0E"),
  (["ML", "MidLetter"], .ranges "3A B7 387 55F 5F4 2027 FE13 FE55 FF1A"),
  (["MN", "MidNum"], .ranges "2C 3B 37E 589 60C-60D 66C 7F8 2044 FE50 FE54 FF0C FF1B"),
  (["NL", "Newline"], .ranges "B-C 85 2028-2029"),
  (["NU", "Numeric"], wordNumber),
  (["RI", "Regional_Indicator"], regionalIndicator),
  (["SQ", "Single_Quote"], .ranges "27"),
  (["WSegSpace"], .ranges "20 1680 2000-2006 2008-200A 205F 3000"),
  (["ZWJ"], .ranges "200D")]

/-- The classes of the property Sentence_Break by name. -/
def sentenceBreaks : List (List String × Rule) := [
  (["AT", "ATerm"], .ranges "2E 2024 FE52 FF0E"),
  (["CL", "Close"],
    categories [.openPunctuation, .closePunctuation, .initialPunctuation, .finalPunctuation] ∪
    .ranges "22 27 275B-2760 2E00-2E01 2E06-2E08 2E0B 1F676-1F678"),
  (["CR"], .ranges "D"),
  (["EX", "Extend"], sentenceExtend),
  (["FO", "Format"], .category .format \ (numberSign ∪ .ranges "200C-200D E0020-E007F")),
  (["LE", "OLetter"],
    (alphabetic ∪ .ranges "5F3") \ (sentenceLower ∪ sentenceUpper ∪ sentenceExtend)),
  (["LF"], .ranges "A"),
  (["LO", "Lower"], sentenceLower),
  (["NU", "Numeric"], wordNumber ∪ .ranges "66C"),
  (["SC", "SContinue"],
    .ranges "2C-2D 3A-3B 37E 55D 60C-60D 7F8 1802 1808 2013-2014 3001 FE10-FE11 FE13-FE14
             FE31-FE32 FE50-FE51 FE54-FE55 FE58 FE63 FF0C-FF0D FF1A-FF1B FF64"),
  (["SE", "Sep"], .ranges "85 2028-2029"),
  (["SP", "Sp"], whiteSpace \ .ranges "A D 85 2028-2029"),
  (["ST", "STerm"], sentenceTerminal \ .ranges "2E 2024 FE52 FF0E"),
  (["UP", "Upper"], sentenceUpper)]

end Rule

end PatternAutomata.Unicode
