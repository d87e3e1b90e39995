import PatternAutomata.CharSet.Basic

/-!
# Expressions

An expression is a pattern as a tree: classes of characters, literal texts, sequences,
alternatives, bounded and unbounded repetition, and lookahead, which looks at what follows without
consuming it.
-/
namespace PatternAutomata

/-- A set of characters, and the notation it is written in, if it has one of its own. -/
structure CharClass where
  chars : CharSet
  label : Option String
  deriving DecidableEq, Hashable

inductive Expr where
  | charClass (c : CharClass)
  | literal (text : List Char)
  | sequence (items : List Expr)
  | alternatives (items : List Expr)
  /-- The body at least `min` times, and at most `max` times if there is a bound. -/
  | repetition (body : Expr) (min : Nat) (max : Option Nat)
  /-- Nothing, provided that the body matches what follows, or does not if `negated`. -/
  | lookahead (body : Expr) (negated : Bool)

namespace Expr

mutual

def same : Expr → Expr → Bool
  | charClass c, charClass d => c = d
  | literal s, literal t => s = t
  | sequence xs, sequence ys => sameAll xs ys
  | alternatives xs, alternatives ys => sameAll xs ys
  | repetition e m n, repetition f k l => same e f && m = k && n = l
  | lookahead e b, lookahead f c => same e f && b = c
  | _, _ => false

def sameAll : List Expr → List Expr → Bool
  | [], [] => true
  | e :: es, f :: fs => same e f && sameAll es fs
  | _, _ => false

end

mutual

theorem same_iff : (e f : Expr) → (same e f = true ↔ e = f)
  | charClass c, f => by cases f <;> simp [same]
  | literal s, f => by cases f <;> simp [same]
  | sequence xs, f => by cases f <;> simp [same, sameAll_iff xs]
  | alternatives xs, f => by cases f <;> simp [same, sameAll_iff xs]
  | repetition e m n, f => by cases f <;> simp [same, same_iff e, and_assoc]
  | lookahead e b, f => by cases f <;> simp [same, same_iff e]

theorem sameAll_iff : (es fs : List Expr) → (sameAll es fs = true ↔ es = fs)
  | [], fs => by cases fs <;> simp [sameAll]
  | e :: es, fs => by cases fs <;> simp [sameAll, same_iff e, sameAll_iff es]

end

instance : DecidableEq Expr := fun e f => decidable_of_iff _ (same_iff e f)

mutual

/-- A number by which most different expressions can be told apart. -/
def digest : Expr → UInt64
  | charClass c => mixHash 1 (hash c)
  | literal s => mixHash 2 (hash (s.map Char.val))
  | sequence items => digestAll 3 items
  | alternatives items => digestAll 4 items
  | repetition body min max => mixHash (mixHash 5 (hash (min, max))) (digest body)
  | lookahead body negated => mixHash (mixHash 6 (hash negated)) (digest body)

def digestAll (start : UInt64) : List Expr → UInt64
  | [] => start
  | e :: es => digestAll (mixHash start (digest e)) es

end

instance : Hashable Expr := ⟨digest⟩

/-- One character of a set. -/
def ofSet (s : CharSet) : Expr := charClass ⟨s, none⟩

/-- One character of a set that is written in a notation of its own. -/
def named (text : String) (s : CharSet) : Expr := charClass ⟨s, some text⟩

def anyChar : Expr := named "[\\s\\S]" CharSet.any

def star (e : Expr) : Expr := repetition e 0 none

def plus (e : Expr) : Expr := repetition e 1 none

def opt (e : Expr) : Expr := repetition e 0 (some 1)

def children : Expr → List Expr
  | charClass _ => []
  | literal _ => []
  | sequence items => items
  | alternatives items => items
  | repetition body _ _ => [body]
  | lookahead body _ => [body]

mutual

/-- The expression and all its parts, each before its own parts. -/
def walk : Expr → List Expr
  | charClass c => [charClass c]
  | literal s => [literal s]
  | sequence items => sequence items :: walkAll items
  | alternatives items => alternatives items :: walkAll items
  | repetition body min max => repetition body min max :: walk body
  | lookahead body negated => lookahead body negated :: walk body

def walkAll : List Expr → List Expr
  | [] => []
  | e :: es => walk e ++ walkAll es

end

def isLookahead : Expr → Bool
  | lookahead _ _ => true
  | _ => false

def hasLookahead (e : Expr) : Bool := e.walk.any isLookahead

end Expr

end PatternAutomata
