import CodeAtlas.Number.Binary64

/-!
# Seconds

Readings of a clock and spans of time. Whole seconds add up exactly; as soon as one of two numbers
has a fraction, both are doubles and the result is rounded. Two readings are always compared
exactly.
-/

namespace CodeAtlas

inductive Seconds where
  | whole (n : Int)
  | real (x : Binary64)
deriving DecidableEq, Repr, Inhabited

namespace Seconds

instance (n : Nat) : OfNat Seconds n := ⟨whole n⟩

def toBinary64 : Seconds → Binary64
  | whole n => .ofRat n
  | real x => x

def add : Seconds → Seconds → Seconds
  | whole m, whole n => whole (m + n)
  | a, b => real (a.toBinary64.add b.toBinary64)

def since : Seconds → Seconds → Seconds
  | whole m, whole n => whole (m - n)
  | a, b => real (a.toBinary64.sub b.toBinary64)

instance : Add Seconds := ⟨add⟩

def toRat? : Seconds → Option Rat
  | whole n => some n
  | real x => x.toRat?

def isInfinite (negative : Bool) (a : Seconds) : Bool :=
  a == real (.infinite negative)

def isBefore (a b : Seconds) : Bool :=
  match a.toRat?, b.toRat? with
  | some x, some y => decide (x < y)
  | some _, none => b.isInfinite false
  | none, some _ => a.isInfinite true
  | none, none => a.isInfinite true && b.isInfinite false

def reaches (a b : Seconds) : Bool :=
  match a.toRat?, b.toRat? with
  | some x, some y => decide (y ≤ x)
  | some _, none => b.isInfinite true
  | none, some _ => a.isInfinite false
  | none, none => a.isInfinite false && b.isInfinite true || a == b && a != real .notANumber

def ticks (start step : Seconds) : Nat → Seconds
  | 0 => start
  | k + 1 => ticks start step k + step

end Seconds

end CodeAtlas
