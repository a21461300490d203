import CodeAtlas.Number.Binary64
import CodeAtlas.Number.Integer

/-!
# Decimal numbers in texts

A sign, digits of any script with at most one point among them, and an exponent; or a word for what
is not finite. Single underscores may stand between digits and blanks around the number.
-/

namespace CodeAtlas.Decimal

/-- Whether an underscore stands anywhere but between two digits. -/
def hasLooseUnderscore (afterDigit : Bool) : List Char → Bool
  | [] => false
  | c :: rest =>
    (c == '_' && !(afterDigit && (rest.head?.map Char.isDigit).getD false))
      || hasLooseUnderscore c.isDigit rest

/-- The exponent that ends a number; a text that is over stands for none. -/
def exponent? : List Char → Option Int
  | [] => some 0
  | e :: rest =>
    let digits? (cs : List Char) : Option Nat :=
      if cs.isEmpty then none else Integer.digitsIn? 10 cs
    if e == 'e' || e == 'E' then
      match rest with
      | '-' :: cs => (digits? cs).map fun n => -(n : Int)
      | '+' :: cs => (digits? cs).map fun n => (n : Int)
      | cs => (digits? cs).map fun n => (n : Int)
    else none

def unsigned? (negative : Bool) (cs : List Char) : Option Binary64 :=
  let whole := cs.takeWhile Char.isDigit
  let (places, rest) := match cs.dropWhile Char.isDigit with
    | '.' :: rest => (rest.takeWhile Char.isDigit, rest.dropWhile Char.isDigit)
    | rest => ([], rest)
  let digits := whole ++ places
  if digits.isEmpty then none
  else do
    let e ← exponent? rest
    let counted := digits.dropWhile (· == '0')
    let n ← Integer.digitsIn? 10 digits
    pure (.ofDecimal negative n counted.length (e - places.length))

def signed? (negative : Bool) (cs : List Char) : Option Binary64 :=
  let word := String.ofList (cs.map Char.toLower)
  if word == "inf" || word == "infinity" then some (.infinite negative)
  else if word == "nan" then some .notANumber
  else unsigned? negative cs

def ofText? (text : List Char) : Option Binary64 :=
  let cs := Integer.plainDigits (Integer.dropMargins text)
  if hasLooseUnderscore false cs then none
  else match cs.filter (· != '_') with
    | '-' :: cs => signed? true cs
    | '+' :: cs => signed? false cs
    | cs => signed? false cs

end CodeAtlas.Decimal
