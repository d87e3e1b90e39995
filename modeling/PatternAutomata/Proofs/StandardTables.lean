import PatternAutomata.Proofs.StandardParser

/-!
# The classes of the standard parser

The standard parser knows its classes by tables. There are several characters in each of those that
have a notation of their own (`Tables.several_standard`).
-/
namespace PatternAutomata

namespace Unicode

/-- Two characters are found in a table by going through its words. -/
theorem several_ofTable {table : String} {text : List Char} (eq : table.toList = text) {a b : Char}
    (different : a ≠ b) (inside : ([a, b].all fun c => (words text).any fun w =>
      (range? w).any fun r => c ∈ Interval.between r.1 r.2) = true) :
    (CharSet.ofTable table).Several := by
  subst eq
  have found (c : Char) (hc : c ∈ [a, b]) : c ∈ CharSet.ofTable table := by
    have listed := List.all_eq_true.mp inside c hc
    simp only [List.any_eq_true, Option.any_eq_true, decide_eq_true_eq] at listed
    obtain ⟨w, hw, r, hr, hc⟩ := listed
    simp only [CharSet.ofTable, CharSet.ofTables, CharSet.mem_ofRanges, List.flatMap_singleton]
    exact ⟨r, List.mem_filterMap.mpr ⟨w, hw, hr⟩, hc⟩
  exact ⟨a, found a (by simp), b, found b (by simp), different⟩

theorem mem_categories {c : Char} {k : Category} {ks : List Category} (h : k ∈ ks)
    (hc : c ∈ k.chars) : c ∈ (Rule.categories ks).chars := by
  induction ks with
  | nil => cases h
  | cons l ks ih =>
    refine CharSet.mem_union.mpr ?_
    rcases List.mem_cons.mp h with rfl | h
    · exact .inl hc
    · exact .inr (ih h)

set_option maxRecDepth 20000 in
theorem several_digit : digit.Several := by
  change (CharSet.ofTable (Category.ranges .decimalNumber)).Several
  rw [Category.ranges]
  exact several_ofTable String.toList_ofList (a := '0') (b := '1') (by decide) (by cbv)

theorem several_titlecase : Category.titlecaseLetter.chars.Several := by
  change (CharSet.ofTable (Category.ranges .titlecaseLetter)).Several
  rw [Category.ranges]
  exact several_ofTable String.toList_ofList (a := 'ǅ') (b := 'ǈ') (by decide) (by cbv)

theorem several_control : control.Several := by
  change (CharSet.ofTable (Category.ranges .control)).Several
  rw [Category.ranges]
  exact several_ofTable String.toList_ofList (a := '\x00') (b := '\x01') (by decide) (by cbv)

theorem several_whitespace : whitespace.Several :=
  several_ofTable String.toList_ofList (a := ' ') (b := '\t') (by decide) (by cbv)

theorem several_letter : letter.Several :=
  several_titlecase.mono fun _ hc => mem_categories (by simp) hc

theorem several_number : number.Several :=
  several_digit.mono fun _ hc => mem_categories (k := .decimalNumber) (by simp) hc

theorem several_word : word.Several := by
  have joiners : (Rule.chars .joinControl).Several :=
    several_ofTable String.toList_ofList (a := '\u200C') (b := '\u200D') (by decide) (by cbv)
  exact joiners.mono fun _ hc => CharSet.mem_union.mpr (.inr hc)

/-- The names of these classes are no names of properties. -/
theorem properties_apart : ∀ key ∈ [['l'], ['n'], ['n', 'd'], ['c', 'c']],
    (Rule.properties.find? fun e => answersTo key e.1).isNone = true := by decide +kernel

/-- The category that has a name. -/
def named? (key : List Char) : Option Category := Category.all.find? fun c => answersTo key c.names

theorem named?_eq : named? ['l'] = none ∧ named? ['n'] = none ∧
    named? ['n', 'd'] = some .decimalNumber ∧ named? ['c', 'c'] = some .control := by
  refine ⟨?_, ?_, ?_, ?_⟩
  all_goals cbv

theorem classOfName_eq {name : List Char} (key : List Char) {rule : Rule}
    (name_eq : loose name = key)
    (listed : key ∈ [['l'], ['n'], ['n', 'd'], ['c', 'c']]) (category : category? key = some rule) :
    classOfName name = .ok rule.chars := by
  unfold classOfName
  simp only [name_eq, Option.isNone_iff_eq_none.mp (properties_apart key listed), category]

theorem classOfName_letter : classOfName ['L'] = .ok letter := by
  refine classOfName_eq ['l'] rfl (by simp) ?_
  obtain ⟨none, -, -, -⟩ := named?_eq
  rw [category?, ← named?, none]
  cbv

theorem classOfName_number : classOfName ['N'] = .ok number := by
  refine classOfName_eq ['n'] rfl (by simp) ?_
  obtain ⟨-, none, -, -⟩ := named?_eq
  rw [category?, ← named?, none]
  cbv

theorem classOfName_digit : classOfName ['N', 'd'] = .ok digit := by
  have category : category? ['n', 'd'] = some (.category .decimalNumber) := by
    obtain ⟨-, -, found, -⟩ := named?_eq
    rw [category?, ← named?, found]
  exact classOfName_eq ['n', 'd'] rfl (by simp) category

theorem classOfName_control : classOfName ['C', 'c'] = .ok control := by
  have category : category? ['c', 'c'] = some (.category .control) := by
    obtain ⟨-, -, -, found⟩ := named?_eq
    rw [category?, ← named?, found]
  exact classOfName_eq ['c', 'c'] rfl (by simp) category

end Unicode

namespace Pattern

namespace Tables

/-- A lone name that is looked up. -/
theorem property_standard {name : List Char} {s : CharSet}
    (whole : Property.ofText name false = ⟨name, none, false⟩)
    (found : Unicode.classOfName name = .ok s) : standard.property name = some s := by
  have members : (Property.ofText name false).members = .ok s := by
    rw [whole]
    simp only [Property.members, Property.chars, found]
    rfl
  rw [standard_property, members]
  rfl

theorem several_standard : standard.Several := by
  constructor
  · intro k
    cases k with
    | digit => exact Unicode.several_digit
    | space => exact Unicode.several_whitespace
    | word => exact Unicode.several_word
  · simp only [List.forall_mem_cons, List.not_mem_nil, false_imp_iff, implies_true, and_true]
    refine ⟨?_, ?_, ?_, ?_⟩
    · exact ⟨_, property_standard rfl Unicode.classOfName_letter, Unicode.several_letter⟩
    · exact ⟨_, property_standard rfl Unicode.classOfName_number, Unicode.several_number⟩
    · exact ⟨_, property_standard rfl Unicode.classOfName_digit, Unicode.several_digit⟩
    · exact ⟨_, property_standard rfl Unicode.classOfName_control, Unicode.several_control⟩

end Tables

end Pattern

end PatternAutomata
