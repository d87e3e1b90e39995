import PatternAutomata.Proofs.Surroundings

/-!
# Searches stay inside their span

A search of a span comes to what a search of the text inside the span comes to, seen from the start
of the span (`find?_local`). A step of a search at a byte offset looks at the character there or
runs a nested automaton on the rest of the same span (`step_eq_stepAt`), so this holds of nested
automata, too, at any depth.
-/
namespace PatternAutomata

/-- The character of the span at a byte offset. -/
def Input.charAt? (input : Input) (i : Nat) : Option Char :=
  (input.ahead i).window?.bind List.head?

/-- How many bytes a condition consumes at a byte offset of a text, if it holds there. A check runs
its nested automaton on the rest of the span. -/
def Condition.stepAt (input : Input) (i : Nat) : Condition Nested → Except Error (Option Nat)
  | char c => .ok (((input.charAt? i).filter (· = c)).map Char.utf8Size)
  | set s => .ok (((input.charAt? i).filter s.contains).map Char.utf8Size)
  | sigma => .error .sigmaTransition
  | check nested mode negated =>
    (nested.automaton.find? mode (input.ahead i)).map fun r =>
      if r.isSome != negated then some 0 else none

namespace Graph

variable {g : Automaton} {mode : Mode} {input input' : Input} {window : List Char} {i n : Nat}

/-- A search sees nothing but what the span shows. -/
theorem find?_of_displays (h : input.Displays n input') (g : Automaton) (mode : Mode) :
    g.find? mode input = relocate input.text n (g.find? mode input') := by
  unfold find?
  rw [h.window?_eq, h.earliest]
  cases input'.window? with
  | none => rfl
  | some window =>
    simp only
    cases (Nested.ready g).search Nested.Trial.run mode input'.earliest window with
    | error e =>
      cases e <;> simp [relocate, SearchError.toError, Error.shift, h.start, Nat.add_assoc]
    | ok r => cases r <;> simp [relocate, h.start, Nat.add_assoc]

theorem Place.At.drop_eq {p : Place} (h : Place.At window p) : window.drop p.pos = p.rest := by
  obtain ⟨⟨taken, split⟩, len⟩ := h
  have same : p.pos = taken.length := by
    rw [← split, List.length_append] at len
    omega
  rw [← split, same, List.drop_left]

/-- An error in what is left of a window, seen from the window. -/
theorem toError_shift (start : Nat) {p : Place} (here : Place.At window p) (e : SearchError) :
    (e.shift p.pos).toError start window =
      e.toError (start + byteSize (window.take p.pos)) p.rest := by
  cases e with
  | missingInitialState => rfl
  | sigmaTransition => rfl
  | ambiguous state pos =>
    simp only [SearchError.shift, SearchError.toError, List.take_add, byteSize_append, here.drop_eq,
      Nat.add_assoc]

/-- A step in a window is a step at a byte offset of the text. -/
theorem step_eq_stepAt (hw : input.window? = some window) {p : Place} (here : Place.At window p)
    (c : Condition Nested) :
    ((c.step Nested.probe p).mapError (·.toError input.span.start window)).map
        (Option.map fun q => byteSize p.rest - byteSize q.rest) =
      c.stepAt input (input.span.start + byteSize (window.take p.pos)) := by
  have ahead : (input.ahead (input.span.start + byteSize (window.take p.pos))).window? =
      some p.rest := by
    obtain ⟨text, ⟨start, stop⟩, earliest⟩ := input
    rw [← List.take_append_drop p.pos window, here.drop_eq] at hw
    exact window?_suffix hw
  cases c with
  | char c =>
    simp only [Condition.stepAt, Input.charAt?, ahead, Condition.step]
    cases p.rest with
    | nil => rfl
    | cons d rest =>
      by_cases same : d = c <;> simp [same, byteSize, Except.mapError, Except.map, Option.filter]
  | set s =>
    simp only [Condition.stepAt, Input.charAt?, ahead, Condition.step]
    cases p.rest with
    | nil => rfl
    | cons d rest =>
      by_cases member : s.contains d <;>
        simp [member, byteSize, Except.mapError, Except.map, Option.filter]
  | sigma => rfl
  | check nested m negated =>
    have early (i : Nat) : (input.ahead i).earliest = true := rfl
    simp only [Condition.stepAt, Condition.step, Nested.probe_eq, find?, ahead, early]
    cases (Nested.ready nested.automaton).search Nested.Trial.run m true p.rest with
    | error e => exact congrArg Except.error (toError_shift _ here e)
    | ok found => cases found <;> cases negated <;> simp [Except.mapError, Except.map]

/-- A search of a span comes to what a search of the text inside the span comes to, at places that
are moved by the start of the span. The text around the span plays no part. The same holds of the
machines that go from one byte offset of the text to the next, at any depth. The checks that a
search meets run their nested automata on rests of the span, where the same holds. -/
theorem find?_local (valid : input.isValid = true) (g : Automaton) (mode : Mode) :
    (∃ before after, input.text = before ++ input.inside ++ after ∧
      before.utf8ByteSize = input.span.start ∧
        (before ++ input.inside).utf8ByteSize = input.span.stop) ∧
    g.find? mode input = relocate input.text input.span.start (g.find? mode input.alone) ∧
    (∀ depth, g.execute depth mode input =
      relocateRun input.text input.span.start (g.execute depth mode input.alone)) ∧
    (∀ other : Input, other.isValid = true → other.span = input.span →
      other.inside = input.inside → other.earliest = input.earliest →
        g.find? mode other = relocate other.text 0 (g.find? mode input) ∧
          ∀ depth, g.execute depth mode other =
            relocateRun other.text 0 (g.execute depth mode input)) ∧
    (∀ (c : Condition Nested) (p : Place), Place.At input.inside.toList p →
      ((c.step Nested.probe p).mapError (·.toError input.span.start input.inside.toList)).map
          (Option.map fun q => byteSize p.rest - byteSize q.rest) =
        c.stepAt input (input.span.start + byteSize (input.inside.toList.take p.pos))) ∧
    ∀ (nested : Automaton) (mode' : Mode) (i : Nat), input.span.start ≤ i →
      nested.find? mode' (input.ahead i) = relocate input.text input.span.start
        (nested.find? mode' (input.alone.ahead (i - input.span.start))) := by
  obtain ⟨window, hw⟩ := Option.isSome_iff_exists.mp valid
  have alone := Input.displays_alone valid
  refine ⟨Input.text_eq hw, find?_of_displays alone g mode,
    fun depth => execute_of_displays depth alone g mode, ?_, ?_, ?_⟩
  · intro other valid' span inside earliest
    obtain ⟨window', hw'⟩ := Option.isSome_iff_exists.mp valid'
    have same : window' = window := by
      rw [← Input.toList_inside hw', inside, Input.toList_inside hw]
    have shown : other.Displays 0 input :=
      Input.displays_of_window? (same ▸ hw') hw (by rw [span, Nat.zero_add]) earliest
    exact ⟨find?_of_displays shown g mode, fun depth => execute_of_displays depth shown g mode⟩
  · rw [Input.toList_inside hw]
    exact fun c p here => step_eq_stepAt hw here c
  · intro nested mode' i le
    obtain ⟨j, rfl⟩ := Nat.exists_eq_add_of_le le
    rw [Nat.add_sub_cancel_left]
    exact find?_of_displays (alone.rest (Nat.zero_le j)) nested mode'

/-- Two of its transitions apply to any letter `a`. -/
def forked : Automaton :=
  (Graph.empty 0).replay [.addState, .addState, .setInitial ⟨0, 0⟩, .setAccepting ⟨0, 1⟩,
    .addTransition ⟨0, 0⟩ ⟨0, 1⟩ (.char 'a'), .addTransition ⟨0, 0⟩ ⟨0, 1⟩ (.set .any)]

/-- It runs `forked` after a letter. -/
def watchful : Automaton :=
  (Graph.empty 1).replay [.addState, .addState, .addState, .setInitial ⟨1, 0⟩,
    .addTransition ⟨1, 0⟩ ⟨1, 1⟩ (.char 'b'),
    .addTransition ⟨1, 1⟩ ⟨1, 2⟩ (.check (.of forked) .dfa false)]

theorem probe_forked : Nested.probe (.of forked) .dfa ['a'] = .error (.ambiguous 0 0) := by
  have walked : (Nested.ready forked).walk Nested.Trial.run true ['a'] =
      .error (.ambiguous 0 0) := by
    change walkFrom _ _ _ _ _ 0 _ = _
    rw [walkFrom]
    rfl
  rw [Nested.probe_eq]
  exact congrArg (Except.map Option.isSome) walked

theorem walk_watchful : (Nested.ready watchful).walk Nested.Trial.run false ['b', 'a'] =
    .error (.ambiguous 0 1) := by
  have inner : (Nested.trial (.of forked)).run .dfa ['a'] = .error (.ambiguous 0 0) := probe_forked
  have out : (Nested.ready watchful).outgoing 1 =
      [⟨⟨1, 2, .check (Nested.trial (.of forked)) .dfa false⟩, false⟩] := rfl
  have chosen : choose Nested.Trial.run 1 ⟨1, ['a']⟩ none ((Nested.ready watchful).outgoing 1) =
      .error (.ambiguous 0 1) := by
    rw [out]
    simp only [choose, Condition.step, inner]
    rfl
  change walkFrom _ _ _ _ _ 0 _ = _
  rw [walkFrom]
  change walkFrom _ _ _ _ _ 1 ⟨1, ['a']⟩ = _
  rw [walkFrom]
  split
  · next early => cases early
  · split
    · next failed =>
      cases failed.symm.trans chosen
      rfl
    · next ended => cases ended.symm.trans chosen
    · next going => cases going.symm.trans chosen

theorem find?_local_watchful : (Input.mk "éba!" ⟨2, 4⟩ false).isValid = true ∧
    watchful.find? .dfa (.ofText "ba") = .error (.ambiguous 0 1) ∧
      watchful.find? .dfa ⟨"éba!", ⟨2, 4⟩, false⟩ = .error (.ambiguous 0 3) ∧
    watchful.execute 2 .dfa (.ofText "ba") = .error (.failed (.ambiguous 0 1)) ∧
      watchful.execute 2 .dfa ⟨"éba!", ⟨2, 4⟩, false⟩ = .error (.failed (.ambiguous 0 3)) := by
  have valid : (Input.mk "éba!" ⟨2, 4⟩ false).isValid = true := by decide
  have inside : watchful.find? .dfa (.ofText "ba") = .error (.ambiguous 0 1) := by
    have searched : (Nested.ready watchful).search Nested.Trial.run .dfa false ['b', 'a'] =
        .error (.ambiguous 0 1) := walk_watchful
    exact find?_of_error (window?_ofText "ba") searched
  have machine : watchful.execute 2 .dfa (.ofText "ba") = .error (.failed (.ambiguous 0 1)) := rfl
  obtain ⟨-, found, executed, -⟩ := find?_local valid watchful .dfa
  refine ⟨valid, inside, found.trans ?_, machine, (executed 2).trans ?_⟩
  · exact congrArg (relocate "éba!" 2) inside
  · exact congrArg (relocateRun "éba!" 2) machine

end Graph

end PatternAutomata
