import CodeAtlas.Number.Binary64

/-!
# JSON values

The members of an object keep the order in which their keys first appeared, and no key appears
twice: writing a key again replaces its value in place.
-/

namespace CodeAtlas

inductive Json where
  | null
  | bool (b : Bool)
  | int (n : Int)
  | real (x : Binary64)
  | str (s : String)
  | arr (items : List Json)
  | obj (members : List (String × Json))
deriving Repr, Inhabited

namespace Json

mutual

def beq : Json → Json → Bool
  | null, null => true
  | bool a, bool b => a == b
  | int a, int b => a == b
  | real a, real b => a == b
  | str a, str b => a == b
  | arr as, arr bs => beqItems as bs
  | obj as, obj bs => beqMembers as bs
  | _, _ => false

def beqItems : List Json → List Json → Bool
  | [], [] => true
  | a :: as, b :: bs => beq a b && beqItems as bs
  | _, _ => false

def beqMembers : List (String × Json) → List (String × Json) → Bool
  | [], [] => true
  | (k, a) :: as, (l, b) :: bs => k == l && beq a b && beqMembers as bs
  | _, _ => false

end

instance : BEq Json := ⟨beq⟩

/-- Writes a member: a key that is there keeps its place. -/
def insertMember (members : List (String × Json)) (key : String) (value : Json) :
    List (String × Json) :=
  if members.any (·.1 == key) then members.map fun m => if m.1 == key then (key, value) else m
  else members ++ [(key, value)]

def lookup (members : List (String × Json)) (key : String) : Option Json :=
  (members.find? (·.1 == key)).map (·.2)

def get? (j : Json) (key : String) : Option Json :=
  match j with
  | obj members => lookup members key
  | _ => none

def str? : Json → Option String
  | str s => some s
  | _ => none

def arr? : Json → Option (List Json)
  | arr items => some items
  | _ => none

def obj? : Json → Option (List (String × Json))
  | obj members => some members
  | _ => none

def int? : Json → Option Int
  | int n => some n
  | _ => none

def bool? : Json → Option Bool
  | bool b => some b
  | _ => none

/-- Values that count as absent: null, false, zero and everything empty. -/
def isBlank : Json → Bool
  | null => true
  | bool b => !b
  | int n => n == 0
  | real x => x.isZero
  | str s => s.isEmpty
  | arr items => items.isEmpty
  | obj members => members.isEmpty

def present? (j : Option Json) : Option Json :=
  j.bind fun v => if v.isBlank then none else some v

def ofOption (o : Option String) : Json :=
  match o with
  | some s => str s
  | none => null

def ofStrings (ss : List String) : Json :=
  arr (ss.map str)

/-! ## Limits -/

/-- How deeply arrays and objects may nest, and how many digits an integer may have, if that is
bounded. -/
structure Limits where
  depth : Nat
  digits : Option Nat
deriving DecidableEq, Repr, Inhabited

def standard : Limits :=
  ⟨990, some 4300⟩

def Admits (maxDigits : Option Nat) (n : Nat) : Prop :=
  ∀ m ∈ maxDigits, n ≤ m

instance (maxDigits : Option Nat) (n : Nat) : Decidable (Admits maxDigits n) :=
  inferInstanceAs (Decidable (∀ m ∈ maxDigits, n ≤ m))

mutual

/-- The number of digits of the longest integer. -/
def width : Json → Nat
  | int n => (Nat.toDigits 10 n.natAbs).length
  | arr items => widthOfItems items
  | obj members => widthOfMembers members
  | _ => 0

def widthOfItems : List Json → Nat
  | [] => 0
  | v :: vs => max v.width (widthOfItems vs)

def widthOfMembers : List (String × Json) → Nat
  | [] => 0
  | (_, v) :: ms => max v.width (widthOfMembers ms)

end

end Json

end CodeAtlas
