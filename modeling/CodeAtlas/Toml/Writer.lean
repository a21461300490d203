import CodeAtlas.Config.Value

/-!
# Writing TOML

The plain values of a table come first, then its arrays of tables, then the tables in it, level by
level, each with its full name.
-/

namespace CodeAtlas.Toml

/-- Whether a key is written without quotes; one newline at its end is let through. -/
def isBareKey (s : String) : Bool :=
  let cs := s.toList
  let cs := if cs.getLast? == some '\n' then cs.dropLast else cs
  !cs.isEmpty && cs.all fun c => c.isAlphanum || c == '_' || c == '-'

/-! ## Texts -/

def escapedChar (c : Char) : List Char :=
  if c == '"' || c == '\\' then ['\\', c]
  else if c == '\n' then ['\\', 'n']
  else if c == '\r' then ['\\', 'r']
  else if c == '\t' then ['\\', 't']
  else if Text.isPrintable c then [c]
  else Json.hexEscape c.toNat

/-- The pieces between the places where a backslash stands before an `x`. -/
def hexPieces : List Char → List (List Char)
  | [] => [[]]
  | '\\' :: 'x' :: rest => [] :: hexPieces rest
  | c :: rest =>
    match hexPieces rest with
    | [] => [[c]]
    | piece :: pieces => (c :: piece) :: pieces

def halveBackslashes : List Char → List Char
  | '\\' :: '\\' :: rest => '\\' :: halveBackslashes rest
  | c :: rest => c :: halveBackslashes rest
  | [] => []

/-- Whether an `x` after this text stands for itself. It does after an odd number of backslashes, and
after none; a text of nothing but backslashes has them counted without the first. -/
def keepsMark (text : List Char) : Bool :=
  let count := (text.reverse.takeWhile (· == '\\')).length
  count == 0 || min count (text.length - 1) % 2 == 1

/-- Joins pieces: where the mark is not kept, two digits become four. -/
def joinPieces (before : List Char) : List (List Char) → List Char
  | [] => before
  | piece :: pieces =>
    let before := halveBackslashes before
    joinPieces (before ++ (if keepsMark before then ['x'] else ['u', '0', '0']) ++ piece) pieces

/-- A text between quotes. One that starts with a character of two digits, and has no other such
place, cannot be written. -/
def quoted? (s : String) : Option String :=
  let inner := match hexPieces (s.toList.flatMap escapedChar) with
    | [] :: [_] => none
    | [] :: piece :: pieces => some (joinPieces piece pieces)
    | piece :: pieces => some (joinPieces piece pieces)
    | [] => some []
  inner.map fun cs => String.ofList ('"' :: (cs ++ ['"']))

def quoted (s : String) : String :=
  (quoted? s).getD ""

def keyText (s : String) : String :=
  if isBareKey s then s else quoted s

def dropExponentZero : List Char → List Char
  | 'e' :: '+' :: '0' :: rest => 'e' :: '+' :: rest
  | 'e' :: '-' :: '0' :: rest => 'e' :: '-' :: rest
  | c :: rest => c :: dropExponentZero rest
  | [] => []

mutual

def valueText : ConfigValue → String
  | .null => ""
  | .bool b => if b then "true" else "false"
  | .int n => toString n
  | .real x => String.ofList (dropExponentZero x.text.toList)
  | .text s => quoted s
  | .moment m => m.written
  | .list items => "[" ++ itemsText items ++ "]"
  | .table members => "[" ++ keysText members ++ "]"

def itemsText : List ConfigValue → String
  | [] => ""
  | v :: rest => " " ++ valueText v ++ "," ++ itemsText rest

/-- Inside of an array in an array, a table shows its keys only. -/
def keysText : List (String × ConfigValue) → String
  | [] => ""
  | (k, _) :: rest => " " ++ quoted k ++ "," ++ keysText rest

end

def isTableArray : ConfigValue → Bool
  | .list items => items.any ConfigValue.isTable
  | _ => false

def isPlain : ConfigValue → Bool
  | .null => false
  | v => !v.isTable && !isTableArray v

def plainText (members : List (String × ConfigValue)) : String :=
  String.join <| (members.filter fun (_, v) => isPlain v).map
    fun (k, v) => keyText k ++ " = " ++ valueText v ++ "\n"

def tablesIn (members : List (String × ConfigValue)) :
    List (String × List (String × ConfigValue)) :=
  members.filterMap fun (k, v) => v.table?.map fun inner => (keyText k, inner)

def below (tables : List (String × List (String × ConfigValue))) :
    List (String × List (String × ConfigValue)) :=
  tables.flatMap fun (name, members) =>
    (tablesIn members).map fun (k, inner) => (name ++ "." ++ k, inner)

def depth : ConfigValue → Nat
  | .list items => 1 + depths items
  | .table members => 1 + memberDepths members
  | _ => 0
where
  depths : List ConfigValue → Nat
    | [] => 0
    | v :: rest => max (depth v) (depths rest)
  memberDepths : List (String × ConfigValue) → Nat
    | [] => 0
    | (_, v) :: rest => max (depth v) (memberDepths rest)

def tablesOf : ConfigValue → List (List (String × ConfigValue))
  | .list items => items.map fun v => v.table?.getD []
  | _ => []

mutual

def bodyText : Nat → String → List (String × ConfigValue) → String
  | 0, _, _ => ""
  | fuel + 1, name, members =>
    let above := if name.isEmpty then "" else name ++ "."
    plainText members ++ String.join ((members.filter fun (_, v) => isTableArray v).map
      fun (k, v) => String.join ((tablesOf v).map (elementText fuel (above ++ keyText k))))

def elementText : Nat → String → List (String × ConfigValue) → String
  | 0, _, _ => ""
  | fuel + 1, name, members =>
    let body := bodyText fuel name members
    let nested := innerText fuel name (tablesIn members)
    "[[" ++ name ++ "]]\n"
      ++ if body.startsWith "[" then "\n" ++ body ++ nested else body ++ "\n" ++ nested

def innerText : Nat → String → List (String × List (String × ConfigValue)) → String
  | 0, _, _ => ""
  | fuel + 1, name, tables =>
    if tables.isEmpty then ""
    else String.join (tables.map fun (k, members) =>
        let body := bodyText fuel (name ++ "." ++ k) members
        if body.isEmpty then "" else "[" ++ name ++ "." ++ k ++ "]\n" ++ body)
      ++ innerText fuel name (below tables)

end

/-- A table with its name, after the text so far; one that holds only tables has no line of its
own. -/
def addTable (fuel : Nat) (text : String) (table : String × List (String × ConfigValue)) : String :=
  let body := bodyText fuel table.1 table.2
  if body.isEmpty && !(tablesIn table.2).isEmpty then text
  else
    let gap := if text.isEmpty || text.endsWith "\n\n" then "" else "\n"
    text ++ gap ++ "[" ++ table.1 ++ "]\n" ++ body

def addLevels (bodyFuel : Nat) : Nat → String → List (String × List (String × ConfigValue)) → String
  | 0, text, _ => text
  | fuel + 1, text, tables =>
    if tables.isEmpty then text
    else addLevels bodyFuel fuel (tables.foldl (addTable bodyFuel) text) (below tables)

inductive WriteError where
  /-- A text has no written form. -/
  | unwritableText
  /-- A moment has an offset that has no written form. -/
  | unwritableMoment
  /-- An array of tables holds something else too. -/
  | notATable
deriving DecidableEq, Repr

def passesForTable : ConfigValue → Bool
  | .table _ => true
  | .text s => s.isEmpty
  | .list items => items.isEmpty
  | _ => false

mutual

def fault? : ConfigValue → Option WriteError
  | .text s => if (quoted? s).isSome then none else some .unwritableText
  | .moment m => if m.isWritable then none else some .unwritableMoment
  | .list items =>
    if items.any ConfigValue.isTable && !items.all passesForTable then some .notATable
    else itemsFault? items
  | .table members => membersFault? members
  | _ => none

def itemsFault? : List ConfigValue → Option WriteError
  | [] => none
  | v :: rest => (fault? v).or (itemsFault? rest)

def membersFault? : List (String × ConfigValue) → Option WriteError
  | [] => none
  | (k, v) :: rest =>
    if isBareKey k || (quoted? k).isSome then (fault? v).or (membersFault? rest)
    else some .unwritableText

end

def write (members : List (String × ConfigValue)) : Except WriteError String :=
  let fuel := 2 * depth (.table members) + 2
  match membersFault? members with
  | some e => .error e
  | none => .ok (addLevels fuel fuel (bodyText fuel "" members) (tablesIn members))

end CodeAtlas.Toml
