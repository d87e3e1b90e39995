import PatternAutomata.Pattern.Standard
import PatternAutomata.Proofs.RangeRows
import PatternAutomata.Proofs.Rules

/-!
# What classes stand for

Under the usual flags a class stands for a set of characters, in a row of ranges that rise. Each way
to put classes together has its law.
-/
namespace PatternAutomata.Pattern

/-- The flags that hold where nothing else is said. -/
abbrev Flags.usual : Flags := .initial {}

/-- The characters that a property stands for, those without it if it is negated. -/
def Property.members (p : Property) : Except ReadError CharSet :=
  p.chars.map fun s => if p.negated then s.negate else s

/-- The classes are those that the standard parser knows. -/
structure Tables.Known (U : Tables) : Prop where
  shorthand : ∀ k, U.shorthand k = k.chars true
  property : ∀ name s, U.property name = some s → (Property.ofText name false).members = .ok s

/-- The class stands for the characters of a set, in ranges that rise. -/
def Denotes (k : ClassTree) (s : CharSet) : Prop :=
  ∃ r, k.ranges .usual = .ok r ∧ r.Rising ∧ r.chars = s

/-- The classes taken together stand for the characters of a set. -/
def DenoteTogether (ks : List ClassTree) (s : CharSet) : Prop :=
  ∃ rs, ClassTree.rangesAll .usual ks = .ok rs ∧ (∀ r ∈ rs, r.Rising) ∧
    ∀ c, (∃ r ∈ rs, c ∈ r.chars) ↔ c ∈ s

theorem ranges_property (p : Property) :
    (ClassTree.property p).ranges .usual = p.members.map .ofSet := by
  unfold Property.members
  cases chars : p.chars with
  | error e =>
    rw [ClassTree.ranges, chars]
    rfl
  | ok s =>
    rw [ClassTree.ranges, chars]
    change Flags.usual.negate p.negated (.ofSet s) = _
    cases p.negated with
    | false => rfl
    | true => exact congrArg Except.ok (Ranges.negate_ofSet s)

namespace Denotes

variable {k : ClassTree} {ks : List ClassTree} {s t : CharSet}

theorem ofSet (h : k.ranges .usual = .ok (.ofSet s)) : Denotes k s :=
  ⟨_, h, Ranges.rising_ofSet s, Ranges.chars_ofSet s⟩

theorem shorthand (k : Shorthand) : Denotes (.shorthand k false) (k.chars true) := ofSet rfl

theorem notShorthand (k : Shorthand) : Denotes (.shorthand k true) (k.chars true).negate :=
  ofSet (congrArg Except.ok (Ranges.negate_ofSet _))

theorem property {p : Property} (known : p.members = .ok s) : Denotes (.property p) s := by
  refine ofSet ?_
  rw [ranges_property, known]
  rfl

theorem outside (h : k.ranges .usual = .ok (.ofSet s)) : Denotes (.bracketed k true) s.negate := by
  refine ofSet ?_
  rw [ClassTree.ranges, h]
  change Except.ok (Ranges.negate (Ranges.joined _)) = _
  rw [Ranges.joined_ofSet, Ranges.negate_ofSet]

theorem bracketed (h : Denotes k s) : Denotes (.bracketed k false) s := by
  obtain ⟨r, ok, -, rfl⟩ := h
  refine ⟨r.joined, ?_, Ranges.rising_ofIntervals _, ?_⟩
  · rw [ClassTree.ranges, ok]
    rfl
  · exact CharSet.ext_mem fun c => Ranges.mem_joined

theorem one (h : Denotes k s) : DenoteTogether [k] s := by
  obtain ⟨r, ok, rising, rfl⟩ := h
  refine ⟨[r], ?_, by simpa using rising, by simp⟩
  rw [ClassTree.rangesAll, ok]
  rfl

theorem cons (h : Denotes k s) (hs : DenoteTogether ks t) : DenoteTogether (k :: ks) (s ∪ t) := by
  obtain ⟨r, ok, rising, rfl⟩ := h
  obtain ⟨rs, oks, risings, members⟩ := hs
  refine ⟨r :: rs, ?_, List.forall_mem_cons.mpr ⟨rising, risings⟩, ?_⟩
  · rw [ClassTree.rangesAll, ok, oks]
    rfl
  · simp [members]

end Denotes

/-- Several items of a class side by side. -/
theorem DenoteTogether.ofItems {ks : List ClassTree} {s : CharSet} (h : DenoteTogether ks s) :
    Denotes (.ofItems ks) s := by
  obtain ⟨rs, oks, rising, members⟩ := h
  unfold ClassTree.ofItems
  split
  · obtain ⟨r, ok, rest⟩ := bind_eq_ok.mp oks
    obtain ⟨_, ⟨⟩, ⟨⟩⟩ := bind_eq_ok.mp rest
    refine ⟨r, ok, rising r (List.mem_singleton_self r), CharSet.ext_mem fun c => ?_⟩
    simpa using members c
  · refine ⟨.unions rs, ?_, Ranges.rising_ofIntervals _, CharSet.ext_mem fun c => ?_⟩
    · rw [ClassTree.ranges, oks]
      rfl
    · rw [Ranges.mem_unions, members]

end PatternAutomata.Pattern
