import CodeAtlas.Json.Writer
import CodeAtlas.Text.Printable

/-!
# JSON values as literals

The notation in which a value is shown inside a text: `None`, `True`, quotes of either kind, and
escapes for what cannot be printed.
-/

namespace CodeAtlas.Json

/-- The escape of a code point, of the least width that holds it. -/
def hexEscape (n : Nat) : List Char :=
  let digit (k : Nat) := hexDigit (n / Nat.pow 16 k % 16)
  if n < 0x100 then ['\\', 'x', digit 1, digit 0]
  else if n < 0x10000 then ['\\', 'u', digit 3, digit 2, digit 1, digit 0]
  else '\\' :: 'U' :: (List.range 8).reverse.map digit

def literalChar (quote c : Char) : List Char :=
  if c == quote || c == '\\' then ['\\', c]
  else if c == '\n' then ['\\', 'n']
  else if c == '\r' then ['\\', 'r']
  else if c == '\t' then ['\\', 't']
  else if Text.isPrintable c then [c]
  else hexEscape c.toNat

/-- Single quotes, unless the text holds one and no double quote. -/
def literalQuote (cs : List Char) : Char :=
  if cs.contains '\'' && !cs.contains '"' then '"' else '\''

def literalText (s : String) : String :=
  let q := literalQuote s.toList
  String.ofList (q :: (s.toList.flatMap (literalChar q) ++ [q]))

mutual

def literal : Json → String
  | null => "None"
  | bool b => if b then "True" else "False"
  | int n => toString n
  | real x => x.text
  | str s => literalText s
  | arr items => "[" ++ ", ".intercalate (literalItems items) ++ "]"
  | obj members => braced (", ".intercalate (literalMembers members))

def literalItems : List Json → List String
  | [] => []
  | j :: rest => literal j :: literalItems rest

def literalMembers : List (String × Json) → List String
  | [] => []
  | (k, j) :: rest => (literalText k ++ ": " ++ literal j) :: literalMembers rest

end

def display : Json → String
  | str s => s
  | j => literal j

def typeName : Json → String
  | null => "NoneType"
  | bool _ => "bool"
  | int _ => "int"
  | real _ => "float"
  | str _ => "str"
  | arr _ => "list"
  | obj _ => "dict"

end CodeAtlas.Json
