import CodeAtlas.Json.Basic

/-!
# Writing JSON

Two layouts: on one line, or with every item of an array or object on a line of its own. Characters
beyond ASCII are written as they are, or as escapes of UTF-16 code units.
-/

namespace CodeAtlas.Json

inductive WriteError where
  /-- An integer has too many digits. -/
  | tooLong
deriving DecidableEq, Repr, Inhabited

def braced (text : String) : String :=
  String.singleton '{' ++ text ++ String.singleton '}'

@[simp] theorem toList_braced (text : String) :
    (braced text).toList = '{' :: (text.toList ++ ['}']) := by
  simp [braced]

def hexDigit (n : Nat) : Char :=
  if n < 10 then Char.ofNat ('0'.toNat + n) else Char.ofNat ('a'.toNat + n - 10)

def unitEscape (n : Nat) : List Char :=
  ['\\', 'u', hexDigit (n / 4096 % 16), hexDigit (n / 256 % 16), hexDigit (n / 16 % 16),
    hexDigit (n % 16)]

/-- Code points beyond the first plane take two code units. -/
def pointEscape (n : Nat) : List Char :=
  if n < 0x10000 then unitEscape n
  else
    let m := n - 0x10000
    unitEscape (0xd800 + m / 0x400) ++ unitEscape (0xdc00 + m % 0x400)

def escapeChar (ascii : Bool) (c : Char) : List Char :=
  match c with
  | '"' => ['\\', '"']
  | '\\' => ['\\', '\\']
  | '\n' => ['\\', 'n']
  | '\r' => ['\\', 'r']
  | '\t' => ['\\', 't']
  | '\x08' => ['\\', 'b']
  | '\x0c' => ['\\', 'f']
  | c => if c.val < 0x20 || (ascii && 0x7e < c.val) then pointEscape c.toNat else [c]

def quoted (ascii : Bool) (s : String) : String :=
  String.ofList ('"' :: (s.toList.flatMap (escapeChar ascii) ++ ['"']))

def realText : Binary64 → String
  | .infinite negative => if negative then "-Infinity" else "Infinity"
  | .notANumber => "NaN"
  | x => x.text

/-- How values are laid out: on one line, or with each item on a line indented by so many blanks a
level. -/
structure Layout where
  ascii : Bool := false
  indent : Option Nat := none

namespace Layout

/-- What stands before an item, before the closing mark, and between items, at a level. -/
def opening (l : Layout) (level : Nat) : String :=
  match l.indent with
  | none => ""
  | some n => "\n" ++ String.ofList (List.replicate (n * level) ' ')

def separator (l : Layout) (level : Nat) : String :=
  match l.indent with
  | none => ", "
  | some _ => "," ++ l.opening level

end Layout

mutual

def writeAt (l : Layout) (level : Nat) : Json → String
  | null => "null"
  | bool b => if b then "true" else "false"
  | int n => toString n
  | real x => realText x
  | str s => quoted l.ascii s
  | arr [] => "[]"
  | arr (v :: vs) =>
    "[" ++ l.opening (level + 1) ++ writeAt l (level + 1) v ++ writeItems l (level + 1) vs
      ++ l.opening level ++ "]"
  | obj [] => braced ""
  | obj ((k, v) :: ms) =>
    braced (l.opening (level + 1) ++ quoted l.ascii k ++ ": " ++ writeAt l (level + 1) v
      ++ writeMembers l (level + 1) ms ++ l.opening level)

def writeItems (l : Layout) (level : Nat) : List Json → String
  | [] => ""
  | v :: vs => l.separator level ++ writeAt l level v ++ writeItems l level vs

def writeMembers (l : Layout) (level : Nat) : List (String × Json) → String
  | [] => ""
  | (k, v) :: ms =>
    l.separator level ++ quoted l.ascii k ++ ": " ++ writeAt l level v ++ writeMembers l level ms

end

/-- The text of a value, however long its integers are. -/
def write (l : Layout) (j : Json) : String :=
  writeAt l 0 j

def writeWithin (maxDigits : Option Nat) (l : Layout) (j : Json) : Except WriteError String :=
  if Admits maxDigits j.width then .ok (write l j) else .error .tooLong

def compact (j : Json) : String :=
  write {} j

end CodeAtlas.Json
