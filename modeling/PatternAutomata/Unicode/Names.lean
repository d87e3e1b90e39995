import PatternAutomata.Unicode.Age
import PatternAutomata.Unicode.Break
import PatternAutomata.Unicode.Script

/-!
# Classes of characters by name

A class is asked for by a lone name, which is a property, a general category or a script, or by the
name of a property together with one of its values. Names are compared loosely: case, blanks, low
lines, hyphens and an initial "is" do not count, and characters beyond ASCII are skipped.
-/
namespace PatternAutomata.Unicode

/-- Why no class has a given name. -/
inductive LookupError where
  | unknownProperty
  | unknownValue
  deriving DecidableEq

def significant (name : List Char) : List Char :=
  (name.filter fun c => c.toNat < 0x80 && c != ' ' && c != '_' && c != '-').map Char.toLower

/-- A name as it is compared. The abbreviation "isc" keeps its first letters. -/
def loose (name : List Char) : List Char :=
  match name with
  | a :: b :: rest =>
    if a.toLower = 'i' ∧ b.toLower = 's' then
      if significant rest = ['c'] then ['i', 's', 'c'] else significant rest
    else significant name
  | _ => significant name

/-- Whether a list of names holds the name that has the given loose form. -/
def answersTo (key : List Char) (names : List String) : Bool :=
  names.any fun n => loose n.toList = key

/-- The classes of general categories that are made up of several ones. -/
def categoryGroups : List (List String × Rule) :=
  let group := Rule.categories
  let letters := [.uppercaseLetter, .lowercaseLetter, .titlecaseLetter]
  [(["L", "Letter"], group (letters ++ [.modifierLetter, .otherLetter])),
   (["LC", "Cased_Letter"], group letters),
   (["M", "Mark", "Combining_Mark"], group [.nonspacingMark, .spacingMark, .enclosingMark]),
   (["N", "Number"], group [.decimalNumber, .letterNumber, .otherNumber]),
   (["P", "Punctuation", "punct"], group
     [.connectorPunctuation, .dashPunctuation, .openPunctuation, .closePunctuation,
      .initialPunctuation, .finalPunctuation, .otherPunctuation]),
   (["S", "Symbol"], group [.mathSymbol, .currencySymbol, .modifierSymbol, .otherSymbol]),
   (["Z", "Separator"], group [.spaceSeparator, .lineSeparator, .paragraphSeparator]),
   (["C", "Other"], group [.control, .format, .privateUse] ∪ Rule.unassigned),
   (["Cn", "Unassigned"], Rule.unassigned),
   (["Any"], Rule.everything),
   (["Assigned"], Rule.everything \ Rule.unassigned),
   (["ASCII"], .ranges "0-7F")]

/-- Values of properties that no character has. -/
def emptyCategories : List (List String) := [["Cs", "Surrogate"]]

/-- Values of the script property that no character has. -/
def emptyScripts : List (List String) :=
  [["Zzzz", "Unknown"], ["Hrkt", "Katakana_Or_Hiragana"]]

/-- The general category or group of categories of a name, if there is one. -/
def category? (key : List Char) : Option Rule :=
  match Category.all.find? fun c => answersTo key c.names with
  | some c => some (.category c)
  | none => (categoryGroups.find? fun e => answersTo key e.1).map Prod.snd

/-- The script of a name, if there is one. -/
def script? (key : List Char) : Option Script :=
  Script.all.find? fun s => answersTo key s.names

/-- Properties that divide all characters into classes, with their names and their classes. -/
def breakProperties : List (List String × List (List String × Rule)) :=
  [(["GCB", "Grapheme_Cluster_Break"], Rule.graphemeBreaks),
   (["WB", "Word_Break"], Rule.wordBreaks),
   (["SB", "Sentence_Break"], Rule.sentenceBreaks)]

/-- Properties whose values are not looked up here. -/
def otherProperties : List (List String) :=
  [["bc", "Bidi_Class"], ["blk", "Block"], ["bmg", "Bidi_Mirroring_Glyph"],
   ["bpb", "Bidi_Paired_Bracket"], ["bpt", "Bidi_Paired_Bracket_Type"],
   ["ccc", "Canonical_Combining_Class"], ["CE", "Composition_Exclusion"], ["cf", "Case_Folding"],
   ["cjkAccountingNumeric", "kAccountingNumeric"],
   ["cjkCompatibilityVariant", "kCompatibilityVariant"], ["cjkIICore", "kIICore"],
   ["cjkIRG_GSource", "kIRG_GSource"], ["cjkIRG_HSource", "kIRG_HSource"],
   ["cjkIRG_JSource", "kIRG_JSource"], ["cjkIRG_KPSource", "kIRG_KPSource"],
   ["cjkIRG_KSource", "kIRG_KSource"], ["cjkIRG_MSource", "kIRG_MSource"],
   ["cjkIRG_SSource", "kIRG_SSource"], ["cjkIRG_TSource", "kIRG_TSource"],
   ["cjkIRG_UKSource", "kIRG_UKSource"], ["cjkIRG_USource", "kIRG_USource"],
   ["cjkIRG_VSource", "kIRG_VSource"],
   ["cjkOtherNumeric", "kOtherNumeric"], ["cjkPrimaryNumeric", "kPrimaryNumeric"],
   ["cjkRSUnicode", "kRSUnicode", "Unicode_Radical_Stroke", "URS"],
   ["Comp_Ex", "Full_Composition_Exclusion"], ["CWKCF", "Changes_When_NFKC_Casefolded"],
   ["dm", "Decomposition_Mapping"], ["dt", "Decomposition_Type"], ["ea", "East_Asian_Width"],
   ["EqUIdeo", "Equivalent_Unified_Ideograph"], ["FC_NFKC", "FC_NFKC_Closure"],
   ["hst", "Hangul_Syllable_Type"], ["InCB", "Indic_Conjunct_Break"],
   ["InPC", "Indic_Positional_Category"], ["InSC", "Indic_Syllabic_Category"],
   ["isc", "ISO_Comment"], ["jg", "Joining_Group"], ["JSN", "Jamo_Short_Name"],
   ["jt", "Joining_Type"], ["kEH_Cat"], ["kEH_Desc"], ["kEH_HG"], ["kEH_IFAO"],
   ["kEH_JSesh"], ["kEH_NoMirror"], ["kEH_NoRotate"],
   ["lb", "Line_Break"], ["lc", "Lowercase_Mapping"], ["na", "Name"], ["na1", "Unicode_1_Name"],
   ["Name_Alias"], ["NFC_QC", "NFC_Quick_Check"], ["NFD_QC", "NFD_Quick_Check"],
   ["NFKC_CF", "NFKC_Casefold"], ["NFKC_QC", "NFKC_Quick_Check"],
   ["NFKC_SCF", "NFKC_Simple_Casefold"], ["NFKD_QC", "NFKD_Quick_Check"], ["nt", "Numeric_Type"],
   ["nv", "Numeric_Value"], ["scf", "Simple_Case_Folding", "sfc"],
   ["slc", "Simple_Lowercase_Mapping"], ["stc", "Simple_Titlecase_Mapping"],
   ["suc", "Simple_Uppercase_Mapping"], ["tc", "Titlecase_Mapping"], ["uc", "Uppercase_Mapping"],
   ["vo", "Vertical_Orientation"], ["XO_NFC", "Expands_On_NFC"], ["XO_NFD", "Expands_On_NFD"],
   ["XO_NFKC", "Expands_On_NFKC"], ["XO_NFKD", "Expands_On_NFKD"]]

/-- The class that a lone name stands for. -/
def classOfName (name : List Char) : Except LookupError CharSet :=
  let key := loose name
  match Rule.properties.find? fun e => answersTo key e.1 with
  | some e => .ok e.2.chars
  | none =>
    match category? key, script? key with
    | some r, _ => .ok r.chars
    | none, some s => .ok s.chars
    | none, none =>
      if (emptyCategories ++ emptyScripts).any (answersTo key) then .error .unknownValue
      else .error .unknownProperty

/-- The class of the characters that have the given value of a property. The value of the age is a
version, and the characters are all that it and the versions before it have. -/
def classOfValue (property value : List Char) : Except LookupError CharSet :=
  let property := loose property
  let key := loose value
  let found : Option CharSet → Except LookupError CharSet
    | some s => .ok s
    | none => .error .unknownValue
  if answersTo property ["gc", "General_Category"] then found ((category? key).map Rule.chars)
  else if answersTo property ["sc", "Script"] then found ((script? key).map Script.chars)
  else if answersTo property ["scx", "Script_Extensions"] then
    found ((script? key).map Script.extension)
  else if answersTo property ["age", "Age"] then
    found ((Edition.upTo? (fun e => answersTo key e.names) Edition.all).map Edition.chars)
  else
    match breakProperties.find? fun e => answersTo property e.1 with
    | some e => found ((e.2.find? fun v => answersTo key v.1).map fun v => v.2.chars)
    | none =>
      if (Rule.properties.map Prod.fst ++ otherProperties).any (answersTo property) then
        .error .unknownValue
      else .error .unknownProperty

def digit : CharSet := Category.decimalNumber.chars

def letter : CharSet :=
  (Rule.categories [.uppercaseLetter, .lowercaseLetter, .titlecaseLetter, .modifierLetter,
    .otherLetter]).chars

def letterOrDigit : CharSet := letter ∪ digit

def number : CharSet := (Rule.categories [.decimalNumber, .letterNumber, .otherNumber]).chars

def control : CharSet := Category.control.chars

def whitespace : CharSet := Rule.whiteSpace.chars

/-- The characters that words are made of. -/
def word : CharSet :=
  (Rule.alphabetic ∪ Rule.categories [.nonspacingMark, .spacingMark, .enclosingMark,
    .decimalNumber, .connectorPunctuation] ∪ Rule.joinControl).chars

end PatternAutomata.Unicode
