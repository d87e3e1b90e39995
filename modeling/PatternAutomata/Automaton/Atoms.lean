import PatternAutomata.Automaton.Numbering
import PatternAutomata.Automaton.Rising
import PatternAutomata.CharSet.Basic

/-!
# Atoms of a family of sets

Sets of characters, each with a target, are cut into disjoint sets on which the targets are the
same for all characters.
-/
namespace PatternAutomata

/-- An interval with the targets of its characters. -/
abbrev Led := Interval × List Nat

/-- The ordinals at which membership in one of some intervals can change, in rising order. -/
def cuts (rs : List Interval) : List Nat :=
  rising (rs.flatMap fun r => [r.lo.ordinal.val, r.hi.ordinal.val + 1])

/-- The intervals between neighbouring cuts. -/
def pieces : List Nat → List Interval
  | a :: b :: rest => (Interval.ofOrdinals? a b).toList ++ pieces (b :: rest)
  | _ => []

/-- Goes over pieces in rising order with the intervals that some targets belong to. Those that
have begun and are not behind are `active`, and those `ahead` come in the order of their starts. A
piece gets the targets of the intervals that hold it. -/
def sweep (active ahead : List Led) : List Interval → List Led
  | [] => []
  | r :: rest =>
    let (begun, ahead) := ahead.span fun l => l.1.lo ≤ r.lo
    let active := (begun ++ active).filter fun l => r.lo ≤ l.1.hi
    (r, rising (active.flatMap Prod.snd)) :: sweep active ahead rest

/-- The disjoint sets into which the given sets are cut, each with its targets, in the order of
their least characters. -/
def atoms (sets : List (CharSet × Nat)) : List (CharSet × List Nat) :=
  let led := (gathered sets).flatMap fun (s, targets) => s.intervals.map (·, targets)
  let ahead := led.mergeSort fun l m => l.1.lo ≤ m.1.lo
  let swept := sweep [] ahead (pieces (cuts (led.map Prod.fst)))
  let parts := (swept.filter fun l => l.2 ≠ []).map fun (r, targets) => (targets, r)
  (gathered parts).map fun (targets, rs) => (CharSet.ofIntervals rs, targets)

end PatternAutomata
