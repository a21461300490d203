import CodeAtlas.Text.Basic

/-!
# Integers in texts

A sign, then decimal digits of any script, with single underscores between them; blanks may stand
around. Very long texts are refused.
-/

namespace CodeAtlas.Integer

/-- Blanks around an integer: among ASCII only the space and the controls from tab to return. -/
def isMargin (c : Char) : Bool :=
  if c.val < 0x7f then c == ' ' || (0x09 ≤ c.val && c.val ≤ 0x0d) else Text.isBlank c

def maxDigits : Nat := 4300

/-- The values of the digits; underscores only between two digits. -/
def digits? : List Char → Option (List Nat)
  | [] => none
  | [c] => (Text.digitValue? c).map ([·])
  | c :: '_' :: rest => do
    let d ← Text.digitValue? c
    let ds ← digits? rest
    pure (d :: ds)
  | c :: rest => do
    let d ← Text.digitValue? c
    let ds ← digits? rest
    pure (d :: ds)

def ofDigits (ds : List Nat) : Nat :=
  ds.foldl (fun n d => 10 * n + d) 0

def unsigned? (cs : List Char) : Option Nat := do
  let ds ← digits? cs
  if ds.length ≤ maxDigits then pure (ofDigits ds) else none

def dropMargins (cs : List Char) : List Char :=
  ((cs.dropWhile isMargin).reverse.dropWhile isMargin).reverse

def ofText? (text : String) : Option Int :=
  match dropMargins text.toList with
  | '-' :: cs => (unsigned? cs).map fun n => -(n : Int)
  | '+' :: cs => (unsigned? cs).map fun n => (n : Int)
  | cs => (unsigned? cs).map fun n => (n : Int)

/-! ## Bases -/

/-- The text with every decimal digit, of whatever script, as an ASCII one. -/
def plainDigits (cs : List Char) : List Char :=
  cs.map fun c => ((Text.digitValue? c).map fun d => Char.ofNat (48 + d)).getD c

def digitIn? (base : Nat) (c : Char) : Option Nat :=
  let d? : Option Nat :=
    if c.isDigit then some (c.toNat - 48)
    else if 'a' ≤ c && c ≤ 'f' then some (c.toNat - 87)
    else if 'A' ≤ c && c ≤ 'F' then some (c.toNat - 55)
    else none
  d?.filter (· < base)

/-- The number of some ASCII digits; that of none is zero. -/
def digitsIn? (base : Nat) (cs : List Char) : Option Nat :=
  cs.foldlM (fun n c => (digitIn? base c).map (base * n + ·)) 0

/-- Digits after a mark for their base. Decimal digits have no mark, and no zero in front. -/
def unsignedLiteral? : List Char → Option Nat
  | [] => none
  | '0' :: c :: rest =>
    let base? : Option Nat := match c.toLower with
      | 'x' => some 16
      | 'o' => some 8
      | 'b' => some 2
      | _ => none
    match base? with
    | some base => if rest.isEmpty then none else digitsIn? base rest
    | none => if (c :: rest).all (· == '0') then some 0 else none
  | cs => if cs.length ≤ maxDigits then digitsIn? 10 cs else none

def ofLiteral? (text : List Char) : Option Int :=
  match plainDigits (dropMargins text) with
  | '-' :: cs => (unsignedLiteral? cs).map fun n => -(n : Int)
  | '+' :: cs => (unsignedLiteral? cs).map fun n => (n : Int)
  | cs => (unsignedLiteral? cs).map fun n => (n : Int)

end CodeAtlas.Integer
