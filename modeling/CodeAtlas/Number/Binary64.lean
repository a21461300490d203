/-!
# Double-precision numbers, exactly

A finite number is `± m · 2 ^ q`. Reading a decimal rounds to the nearest double, a tie to the even
one; writing takes the fewest decimal digits that read back, and of those the nearest to the value.
All of it is done in exact integer arithmetic.
-/

namespace CodeAtlas

inductive Binary64 where
  | finite (negative : Bool) (mantissa : Nat) (exponent : Int)
  | infinite (negative : Bool)
  | notANumber
deriving DecidableEq, Repr, Inhabited

namespace Binary64

/-- The quotient rounded to nearest, a tie to even. -/
def roundDiv (num den : Nat) : Nat :=
  let q := num / den
  let r := num % den
  if 2 * r < den then q
  else if den < 2 * r then q + 1
  else if q % 2 == 0 then q else q + 1

/-- The scale at which `num / den` has 53 binary digits, but not below that of the least double. -/
def scaleOf (num den : Nat) : Int :=
  let guess : Int := (Nat.log2 num : Int) - (Nat.log2 den : Int) - 52
  let fits (q : Int) : Bool :=
    if 0 ≤ q then num < den * Nat.pow 2 (q.toNat + 53)
    else num * Nat.pow 2 (-q).toNat < den * Nat.pow 2 53
  let q := if fits (guess - 1) then guess - 1 else if fits guess then guess else guess + 1
  max q (-1074)

def ofQuotient (negative : Bool) (num den : Nat) : Binary64 :=
  let q := scaleOf num den
  let m := if 0 ≤ q then roundDiv num (den * Nat.pow 2 q.toNat) else roundDiv (num * Nat.pow 2 (-q).toNat) den
  let (m, q) := if m == Nat.pow 2 53 then (Nat.pow 2 52, q + 1) else (m, q)
  if m == 0 then .finite negative 0 0
  else if 971 < q then .infinite negative
  else .finite negative m q

/-- The double nearest to `digits · 10 ^ exponent`, where `digits` is written with `count` places. -/
def ofDecimal (negative : Bool) (digits count : Nat) (exponent : Int) : Binary64 :=
  if digits == 0 then .finite negative 0 0
  else if 310 < exponent + count then .infinite negative
  else if exponent + count < -330 then .finite negative 0 0
  else if 0 ≤ exponent then ofQuotient negative (digits * Nat.pow 10 exponent.toNat) 1
  else ofQuotient negative digits (Nat.pow 10 (-exponent).toNat)

def toRat? : Binary64 → Option Rat
  | .finite negative m q =>
    let size : Rat := if 0 ≤ q then ((m * Nat.pow 2 q.toNat : Nat) : Rat) else mkRat m (Nat.pow 2 (-q).toNat)
    some (if negative then -size else size)
  | _ => none

def truncate? : Binary64 → Option Int
  | .finite negative m q =>
    let size : Nat := if 0 ≤ q then m * Nat.pow 2 q.toNat else m / Nat.pow 2 (-q).toNat
    some (if negative then -(size : Int) else size)
  | _ => none

def isZero : Binary64 → Bool
  | .finite _ m _ => m == 0
  | _ => false

/-! ## Sums -/

def ofRat (r : Rat) : Binary64 :=
  if r.num == 0 then .finite false 0 0 else ofQuotient (r.num < 0) r.num.natAbs r.den

def isNegative : Binary64 → Bool
  | .finite negative _ _ => negative
  | .infinite negative => negative
  | .notANumber => false

def neg : Binary64 → Binary64
  | .finite negative m q => .finite (!negative) m q
  | .infinite negative => .infinite (!negative)
  | .notANumber => .notANumber

def add (a b : Binary64) : Binary64 :=
  match a, b with
  | .notANumber, _ => .notANumber
  | _, .notANumber => .notANumber
  | .infinite s, .infinite t => if s == t then .infinite s else .notANumber
  | .infinite s, _ => .infinite s
  | _, .infinite t => .infinite t
  | .finite .., .finite .. =>
    match a.toRat?, b.toRat? with
    | some x, some y =>
      if x + y = 0 then .finite (a.isNegative && b.isNegative) 0 0 else ofRat (x + y)
    | _, _ => .notANumber

def sub (a b : Binary64) : Binary64 :=
  a.add b.neg

/-! ## Fewest digits -/

/-- The numbers that round to `m · 2 ^ q`, as quotients over one denominator: least, value,
greatest. -/
def interval (m : Nat) (q : Int) : Nat × Nat × Nat × Nat :=
  let up := if 0 ≤ q then Nat.pow 2 q.toNat else 1
  let den := if 0 ≤ q then 4 else 4 * Nat.pow 2 (-q).toNat
  let below := if m == Nat.pow 2 52 && -1074 < q then 1 else 2
  ((4 * m - below) * up, 4 * m * up, (4 * m + 2) * up, den)

/-- The multiple of `10 ^ k` inside the interval that is nearest to the value. -/
def onGrid (m : Nat) (q k : Int) : Option Nat :=
  let (lo, v, hi, den) := interval m q
  let scale := if 0 ≤ k then 1 else Nat.pow 10 (-k).toNat
  let unit := if 0 ≤ k then den * Nat.pow 10 k.toNat else den
  let (lo, v, hi) := (lo * scale, v * scale, hi * scale)
  let inside (d : Nat) : Bool :=
    if m % 2 == 0 then lo ≤ d * unit && d * unit ≤ hi else lo < d * unit && d * unit < hi
  let down := v / unit
  let gapDown := v - down * unit
  let gapUp := (down + 1) * unit - v
  match inside down && down != 0, inside (down + 1) with
  | true, true =>
    if gapDown < gapUp then some down
    else if gapUp < gapDown then some (down + 1)
    else if down % 2 == 0 then some down else some (down + 1)
  | true, false => some down
  | false, true => some (down + 1)
  | false, false => none

/-- The decimal exponent of the leading digit, found from an estimate that is at most one off. -/
def leadingExponent (m : Nat) (q : Int) : Int :=
  let num := if 0 ≤ q then m * Nat.pow 2 q.toNat else m
  let den := if 0 ≤ q then 1 else Nat.pow 2 (-q).toNat
  let bits : Int := (Nat.log2 m : Int) + q
  let guess : Int := bits * 30103 / 100000
  let atLeast (e : Int) : Bool :=
    if 0 ≤ e then den * Nat.pow 10 e.toNat ≤ num else den ≤ num * Nat.pow 10 (-e).toNat
  if atLeast (guess + 1) then guess + 1 else if atLeast guess then guess else guess - 1

def searchDigits (m : Nat) (q lead : Int) : Nat → Nat → Nat × Int
  | 0, _ => (0, 0)
  | fuel + 1, count =>
    let k := lead + 1 - count
    match onGrid m q k with
    | some d => (d, k)
    | none => searchDigits m q lead fuel (count + 1)

/-- The fewest digits `d` and the exponent `k` such that `d · 10 ^ k` reads back. -/
def shortest (m : Nat) (q : Int) : Nat × Int :=
  searchDigits m q (leadingExponent m q) 18 1

def stripZeros : Nat → Nat × Int → Nat × Int
  | 0, p => p
  | fuel + 1, (d, k) => if d != 0 && d % 10 == 0 then stripZeros fuel (d / 10, k + 1) else (d, k)

def zeros (n : Nat) : String :=
  String.ofList (List.replicate n '0')

/-- Decimal notation with a point from `1e-4` up to below `1e16`, else with an exponent of at least
two digits. -/
def decimalText (d : Nat) (k : Int) : String :=
  let digits := toString d
  let count := digits.length
  let point : Int := k + count
  if -4 < point && point ≤ 16 then
    if point ≤ 0 then "0." ++ zeros (-point).toNat ++ digits
    else if 0 ≤ k then digits ++ zeros k.toNat ++ ".0"
    else
      String.ofList (digits.toList.take point.toNat) ++ "."
        ++ String.ofList (digits.toList.drop point.toNat)
  else
    let e := point - 1
    let tail := String.ofList (digits.toList.drop 1)
    let fraction := if tail.isEmpty then "" else "." ++ tail
    let size := toString e.natAbs
    let padded := if size.length < 2 then "0" ++ size else size
    String.ofList (digits.toList.take 1) ++ fraction ++ "e" ++ (if e < 0 then "-" else "+") ++ padded

def text : Binary64 → String
  | .finite negative m q =>
    let sign := if negative then "-" else ""
    if m == 0 then sign ++ "0.0"
    else
      let (d, k) := stripZeros 20 (shortest m q)
      sign ++ decimalText d k
  | .infinite negative => if negative then "-inf" else "inf"
  | .notANumber => "nan"

end Binary64

end CodeAtlas
