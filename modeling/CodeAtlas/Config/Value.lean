import CodeAtlas.Config.Moment
import CodeAtlas.Json.Literal

/-!
# Configured values

What stands under a key of a configuration: a value as JSON has them, or a date or time. The members
of a table keep the order in which their keys first appeared.
-/

namespace CodeAtlas

inductive ConfigValue where
  | null
  | bool (b : Bool)
  | int (n : Int)
  | real (x : Binary64)
  | text (s : String)
  | moment (m : Moment)
  | list (items : List ConfigValue)
  | table (members : List (String × ConfigValue))
deriving Repr, Inhabited

namespace ConfigValue

/-- Writes a member: a key that is there keeps its place. -/
def insertMember (members : List (String × ConfigValue)) (key : String) (value : ConfigValue) :
    List (String × ConfigValue) :=
  if members.any (·.1 == key) then members.map fun m => if m.1 == key then (key, value) else m
  else members ++ [(key, value)]

def table? : ConfigValue → Option (List (String × ConfigValue))
  | table members => some members
  | _ => none

def isTable (v : ConfigValue) : Bool :=
  v.table?.isSome

/-- Values that count as absent: null, false, zero and everything empty. -/
def isBlank : ConfigValue → Bool
  | null => true
  | bool b => !b
  | int n => n == 0
  | real x => x.isZero
  | text s => s.isEmpty
  | moment _ => false
  | list items => items.isEmpty
  | table members => members.isEmpty

def present? (v : Option ConfigValue) : Option ConfigValue :=
  v.filter fun v => !v.isBlank

/-! ## JSON -/

mutual

def ofJson : Json → ConfigValue
  | .null => null
  | .bool b => bool b
  | .int n => int n
  | .real x => real x
  | .str s => text s
  | .arr items => list (ofItems items)
  | .obj members => table (ofMembers members)

def ofItems : List Json → List ConfigValue
  | [] => []
  | j :: rest => ofJson j :: ofItems rest

def ofMembers : List (String × Json) → List (String × ConfigValue)
  | [] => []
  | (k, j) :: rest => (k, ofJson j) :: ofMembers rest

end

mutual

/-- The value in JSON, where dates and times are texts. -/
def toJson : ConfigValue → Json
  | null => .null
  | bool b => .bool b
  | int n => .int n
  | real x => .real x
  | text s => .str s
  | moment m => .str m.display
  | list items => .arr (itemsToJson items)
  | table members => .obj (membersToJson members)

def itemsToJson : List ConfigValue → List Json
  | [] => []
  | v :: rest => toJson v :: itemsToJson rest

def membersToJson : List (String × ConfigValue) → List (String × Json)
  | [] => []
  | (k, v) :: rest => (k, toJson v) :: membersToJson rest

end

/-! ## Texts -/

mutual

def literal : ConfigValue → String
  | moment m => m.literal
  | list items => "[" ++ ", ".intercalate (literalItems items) ++ "]"
  | table members => Json.braced (", ".intercalate (literalMembers members))
  | null => Json.literal .null
  | bool b => Json.literal (.bool b)
  | int n => Json.literal (.int n)
  | real x => Json.literal (.real x)
  | text s => Json.literal (.str s)

def literalItems : List ConfigValue → List String
  | [] => []
  | v :: rest => literal v :: literalItems rest

def literalMembers : List (String × ConfigValue) → List String
  | [] => []
  | (k, v) :: rest => (Json.literalText k ++ ": " ++ literal v) :: literalMembers rest

end

/-- A text as it is, a date or time in its own notation, any other value as a literal. -/
def display : ConfigValue → String
  | text s => s
  | moment m => m.display
  | v => literal v

end ConfigValue

end CodeAtlas
