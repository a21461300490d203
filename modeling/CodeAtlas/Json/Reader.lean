import CodeAtlas.Json.Basic

/-!
# Reading JSON

A strict reader: strings hold no raw control characters, blanks are spaces, tabs, carriage returns
and line feeds, and nothing but blanks may surround the value. The words `NaN`, `Infinity` and
`-Infinity` are numbers. How far values nest is bounded, and the digits of integers may be.
-/

namespace CodeAtlas.Json

inductive ReadError where
  | malformed
  /-- Arrays and objects nest too deeply. -/
  | tooDeep
  /-- An integer has too many digits. -/
  | tooLong
deriving DecidableEq, Repr, Inhabited

abbrev ReadResult (α : Type) : Type := Except ReadError (α × List Char)

def isSpace (c : Char) : Bool :=
  c == ' ' || c == '\t' || c == '\n' || c == '\r'

def skipSpaces : List Char → List Char :=
  List.dropWhile isSpace

/-! ## Strings -/

def hexValue? (c : Char) : Option Nat :=
  if c.isDigit then some (c.toNat - '0'.toNat)
  else if 'a' ≤ c && c ≤ 'f' then some (c.toNat - 'a'.toNat + 10)
  else if 'A' ≤ c && c ≤ 'F' then some (c.toNat - 'A'.toNat + 10)
  else none

def hex4? (a b c d : Char) : Option Nat := do
  let w ← hexValue? a
  let x ← hexValue? b
  let y ← hexValue? c
  let z ← hexValue? d
  return ((w * 16 + x) * 16 + y) * 16 + z

def simpleEscape? : Char → Option Char
  | '"' => some '"'
  | '\\' => some '\\'
  | '/' => some '/'
  | 'b' => some '\x08'
  | 'f' => some '\x0c'
  | 'n' => some '\n'
  | 'r' => some '\r'
  | 't' => some '\t'
  | _ => none

def consPoint (n : Nat) (r : ReadResult (List Nat)) : ReadResult (List Nat) :=
  r.map fun (ns, rest) => (n :: ns, rest)

/-- The code points of a string up to its closing quote; an escape gives a code unit. -/
def stringPoints : List Char → ReadResult (List Nat)
  | [] => .error .malformed
  | '"' :: rest => .ok ([], rest)
  | '\\' :: 'u' :: a :: b :: c :: d :: rest =>
    match hex4? a b c d with
    | some n => consPoint n (stringPoints rest)
    | none => .error .malformed
  | '\\' :: e :: rest =>
    match simpleEscape? e with
    | some c => consPoint c.toNat (stringPoints rest)
    | none => .error .malformed
  | c :: rest =>
    if c == '\\' || c.val < 0x20 then .error .malformed
    else consPoint c.toNat (stringPoints rest)

/-- The character of a code point; half of a pair of code units alone is replaced. -/
def pointChar (n : Nat) : Char :=
  if 0xd800 ≤ n && n < 0xe000 then '\ufffd' else Char.ofNat n

def joinPoints : List Nat → List Char
  | [] => []
  | [n] => [pointChar n]
  | n :: m :: rest =>
    if 0xd800 ≤ n && n < 0xdc00 && 0xdc00 ≤ m && m < 0xe000 then
      Char.ofNat (0x10000 + (n - 0xd800) * 0x400 + (m - 0xdc00)) :: joinPoints rest
    else pointChar n :: joinPoints (m :: rest)

def stringBody (text : List Char) : ReadResult String :=
  (stringPoints text).map fun (ns, rest) => (String.ofList (joinPoints ns), rest)

/-! ## Numbers -/

def digitsValue (ds : List Char) : Nat :=
  ds.foldl (fun n c => n * 10 + (c.toNat - '0'.toNat)) 0

/-- The digits of an integer part: a zero stands alone. -/
def integerDigits : List Char → Option (List Char × List Char)
  | '0' :: rest => some (['0'], rest)
  | text => match text.span Char.isDigit with
    | ([], _) => none
    | (ds, rest) => some (ds, rest)

def fraction (text : List Char) : List Char × List Char :=
  match text with
  | '.' :: rest => match rest.span Char.isDigit with
    | ([], _) => ([], text)
    | (ds, rest) => (ds, rest)
  | _ => ([], text)

def signedDigits (text : List Char) : Option (Int × List Char) :=
  let (negative, text) := match text with
    | '-' :: r => (true, r)
    | '+' :: r => (false, r)
    | r => (false, r)
  match text.span Char.isDigit with
  | ([], _) => none
  | (ds, rest) => some (if negative then -(digitsValue ds : Int) else digitsValue ds, rest)

def exponentPart (text : List Char) : Option Int × List Char :=
  match text with
  | e :: rest =>
    if e == 'e' || e == 'E' then
      match signedDigits rest with
      | some (n, rest) => (some n, rest)
      | none => (none, text)
    else (none, text)
  | [] => (none, text)

/-- A number without its sign. A fraction or an exponent makes it a double, of any length. -/
def unsignedNumber (maxDigits : Option Nat) (negative : Bool) (text : List Char) : ReadResult Json :=
  match integerDigits text with
  | none => .error .malformed
  | some (whole, rest) =>
    let (frac, afterFraction) := fraction rest
    let (exponent, afterExponent) := exponentPart afterFraction
    if frac.isEmpty && exponent.isNone then
      if Admits maxDigits whole.length then
        let n := digitsValue whole
        .ok (int (if negative then -(n : Int) else n), rest)
      else .error .tooLong
    else
      let digits := (whole ++ frac).dropWhile (· == '0')
      let scale := exponent.getD 0 - frac.length
      .ok (real (Binary64.ofDecimal negative (digitsValue digits) digits.length scale), afterExponent)

/-! ## Values -/

def keyword? (text : List Char) : Option (Json × List Char) :=
  let table : List (String × Json) :=
    [("null", null), ("true", bool true), ("false", bool false), ("NaN", real .notANumber),
     ("Infinity", real (.infinite false)), ("-Infinity", real (.infinite true))]
  (table.find? fun (w, _) => w.toList.isPrefixOf text).map fun (w, v) => (v, text.drop w.length)

mutual

/-- A value at the head of the text; `depth` bounds how far arrays and objects nest, and `maxDigits`
the digits of integers. -/
def readValue (maxDigits : Option Nat) (depth : Nat) : Nat → List Char → ReadResult Json
  | 0, _ => .error .malformed
  | fuel + 1, text =>
    match text with
    | '"' :: rest => (stringBody rest).map fun (s, rest) => (str s, rest)
    | '[' :: rest =>
      if depth == 0 then .error .tooDeep
      else match skipSpaces rest with
        | ']' :: rest => .ok (arr [], rest)
        | rest =>
          (readItems maxDigits (depth - 1) fuel rest).map fun (items, rest) => (arr items, rest)
    | '{' :: rest =>
      if depth == 0 then .error .tooDeep
      else match skipSpaces rest with
        | '}' :: rest => .ok (obj [], rest)
        | rest =>
          (readMembers maxDigits (depth - 1) fuel [] rest).map fun (members, rest) =>
            (obj members, rest)
    | _ =>
      match keyword? text with
      | some (v, rest) => .ok (v, rest)
      | none => match text with
        | '-' :: rest => unsignedNumber maxDigits true rest
        | _ => unsignedNumber maxDigits false text

def readItems (maxDigits : Option Nat) (depth : Nat) : Nat → List Char → ReadResult (List Json)
  | 0, _ => .error .malformed
  | fuel + 1, text =>
    match readValue maxDigits depth fuel text with
    | .error e => .error e
    | .ok (v, rest) =>
      match skipSpaces rest with
      | ',' :: rest =>
        (readItems maxDigits depth fuel (skipSpaces rest)).map fun (vs, rest) => (v :: vs, rest)
      | ']' :: rest => .ok ([v], rest)
      | _ => .error .malformed

/-- The members of an object up to its closing brace, added to those read before. -/
def readMembers (maxDigits : Option Nat) (depth : Nat) :
    Nat → List (String × Json) → List Char → ReadResult (List (String × Json))
  | 0, _, _ => .error .malformed
  | fuel + 1, before, text =>
    match text with
    | '"' :: rest =>
      match stringBody rest with
      | .error e => .error e
      | .ok (key, rest) =>
        match skipSpaces rest with
        | ':' :: rest =>
          match readValue maxDigits depth fuel (skipSpaces rest) with
          | .error e => .error e
          | .ok (v, rest) =>
            let members := insertMember before key v
            match skipSpaces rest with
            | ',' :: rest => readMembers maxDigits depth fuel members (skipSpaces rest)
            | '}' :: rest => .ok (members, rest)
            | _ => .error .malformed
        | _ => .error .malformed
    | _ => .error .malformed

end

def readWithin (limits : Limits) (text : String) : Except ReadError Json :=
  let chars := text.toList
  match readValue limits.digits limits.depth (2 * chars.length + 2) (skipSpaces chars) with
  | .error e => .error e
  | .ok (v, rest) => if (skipSpaces rest).isEmpty then .ok v else .error .malformed

def read (text : String) : Except ReadError Json :=
  readWithin standard text

end CodeAtlas.Json
