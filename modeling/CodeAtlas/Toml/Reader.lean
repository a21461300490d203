import CodeAtlas.Toml.Layout
import CodeAtlas.Toml.Line

/-!
# Reading TOML

A document is read line by line: a heading opens a table, any other line adds to the table that is
open. A table that is there only because one inside of it was opened may be opened itself, once; such
tables are told apart by their last name alone.
-/

namespace CodeAtlas.Toml

/-! ## Headings -/

def isBareName (name : List Char) : Bool :=
  !name.isEmpty && name.all fun c => c.isAlphanum || c == '_' || c == '-'

def isClosedName (name : List Char) : Bool :=
  1 < name.length && name.head? == name.getLast?

def closeName (name : List Char) : List (List Char) → Except ReadError (String × List (List Char))
  | [] =>
    let text := Text.stripChars name
    if isClosedName text then .ok (String.ofList (inside text), []) else .error .malformed
  | piece :: rest =>
    let text := Text.stripChars name
    if isClosedName text then .ok (String.ofList (inside text), piece :: rest)
    else closeName (name ++ '.' :: piece) rest

def groupNames : Nat → List (List Char) → Except ReadError (List String)
  | 0, _ => .error .malformed
  | _, [] => .ok []
  | fuel + 1, piece :: rest => do
    let name := Text.stripChars piece
    if (name.head?.map isQuote).getD false then
      let (name, rest) ← closeName name rest
      pure (name :: (← groupNames fuel rest))
    else if isBareName name then pure (String.ofList name :: (← groupNames fuel rest))
    else throw .malformed

def headingNames (isArray : Bool) (line : List Char) : Except ReadError (List String) :=
  let mark := if isArray then [']', ']'] else [']']
  let marks := 1 + quotedMarks mark false (quotePieces line)
  let pieces := Text.splitAtMost mark marks line
  if pieces.length < marks + 1 || !(Text.stripChars (pieces.getLast?.getD [])).isEmpty then
    .error .malformed
  else
    let groups := Text.split ['.'] (Text.join mark pieces.dropLast)
    groupNames (groups.length + 1) groups

inductive Hop where
  | member (key : String)
  | last
deriving DecidableEq, Repr

def lastPart : ConfigValue → Except ReadError ConfigValue
  | .list items =>
    match items.getLast? with
    | some v => .ok v
    | none => .error .cutShort
  | .text s =>
    match s.toList.getLast? with
    | some c => .ok (.text c.toString)
    | none => .error .cutShort
  | _ => .error .notATable

def replaceLast (whole last : ConfigValue) : ConfigValue :=
  match whole with
  | .list items => .list (items.dropLast ++ [last])
  | v => v

/-- What opening a table has changed: the value, the names of tables that are there only for those
inside of them, and the way to the table. -/
structure Opened where
  value : ConfigValue
  implied : List String
  path : List Hop

/-- A member on the way to a table, which comes to be if it is not there. The table itself must be
new, or have been implied; an array of tables gets one more. -/
def openMember (isArray isLast : Bool) (members : List (String × ConfigValue)) (name : String)
    (implied : List String) : Except ReadError (ConfigValue × List String) :=
  match members.lookup name with
  | none =>
    .ok (if isArray && isLast then .list [.table []] else .table [],
      if isLast then implied else implied ++ [name])
  | some v =>
    if !isLast then .ok (v, implied)
    else if implied.contains name then
      if isArray then .error .malformed else .ok (v, implied.erase name)
    else if !isArray then .error .malformed
    else match v with
      | .list items => .ok (.list (items ++ [.table []]), implied)
      | _ => .error .notATable

/-- Opens a table inside of a value. Of an array of tables on the way the last one is meant. -/
def openTable (isArray : Bool) (implied : List String) :
    List String → ConfigValue → Except ReadError Opened
  | [], v => .ok ⟨v, implied, []⟩
  | name :: rest, v => do
    if name.isEmpty then throw .malformed
    let isLast := rest.isEmpty
    let (holder, hops) ← match v with
      | .table _ => pure (v, [])
      | v => pure (← lastPart v, [Hop.last])
    let .table members := holder | throw .notATable
    let (member, implied) ←
      if hops.isEmpty then openMember isArray isLast members name implied
      else
        let fresh := if isArray && isLast then ConfigValue.list [.table []] else .table []
        pure ((members.lookup name).getD fresh, implied)
    let entered := isArray && !member.isTable
    let o ← openTable isArray implied rest (← if entered then lastPart member else pure member)
    let member := if entered then replaceLast member o.value else o.value
    let holder := ConfigValue.table (ConfigValue.insertMember members name member)
    pure
      { value := if hops.isEmpty then holder else replaceLast v holder
        implied := o.implied
        path := hops ++ .member name :: ((if entered then [Hop.last] else []) ++ o.path) }

/-! ## Documents -/

structure Draft where
  root : ConfigValue := .table []
  path : List Hop := []
  implied : List String := []
  unfinished : Option OpenText := none

def changeAt {α : Type} (change : ConfigValue → Except ReadError (ConfigValue × α)) :
    List Hop → ConfigValue → Except ReadError (ConfigValue × α)
  | [], v => change v
  | .member key :: rest, .table members =>
    match members.lookup key with
    | some v => do
      let (v, a) ← changeAt change rest v
      pure (.table (ConfigValue.insertMember members key v), a)
    | none => .error .notATable
  | .last :: rest, v => do
    let (last, a) ← changeAt change rest (← lastPart v)
    pure (replaceLast v last, a)
  | _, _ => .error .notATable

def overwrite (key : String) (value : ConfigValue) :
    ConfigValue → Except ReadError (ConfigValue × Unit)
  | .table members => .ok (.table (ConfigValue.insertMember members key value), ())
  | _ => .error .notATable

/-- Goes on with a text that runs over lines. Three quotes at the end of a line close it, and a
bracket closes an array. -/
def Draft.continueText (d : Draft) (t : OpenText) (line : List Char) : Except ReadError Draft := do
  let behind := line.reverse ++ t.behind
  let closed ←
    if t.opening != '[' then
      pure (2 < line.length && (line.reverse.take 3).all (· == t.opening))
    else match line.getLast? with
      | some c => pure (c == ']')
      | none => throw .cutShort
  if closed then
    let value ← readValue true nestingLimit behind.reverse
    let (root, _) ← changeAt (overwrite t.key value) d.path d.root
    pure { d with root, unfinished := none }
  else pure { d with unfinished := some (openText t.key t.opening behind) }

def Draft.startLine (d : Draft) (line : List Char) : Except ReadError Draft := do
  match line with
  | '[' :: rest =>
    if rest.isEmpty then throw .malformed
    let isArray := rest.head? == some '['
    let names ← headingNames isArray (if isArray then rest.drop 1 else rest)
    let o ← openTable isArray d.implied names d.root
    pure { d with root := o.value, implied := o.implied, path := o.path }
  | '{' :: _ =>
    if line.getLast? != some '}' then throw .malformed
    let (root, _) ← changeAt (fun v => (readTable nestingLimit line v).map (·, ())) d.path d.root
    pure { d with root }
  | line =>
    if !line.contains '=' then pure d
    else
      let (root, unfinished) ← changeAt (readLine nestingLimit line) d.path d.root
      pure { d with root, unfinished }

/-- One line more. Blanks around it count only in a text that has a newline before it. -/
def Draft.addLine (d : Draft) (line : List Char) : Except ReadError Draft :=
  match d.unfinished with
  | none =>
    let line := Text.stripChars line
    if line.isEmpty then .ok d else d.startLine line
  | some t =>
    let line := if t.joined then Text.stripChars line else line
    if line.isEmpty && t.joined then .ok d else d.continueText t line

/-- The members of a document. A text that is open at its end is left out. -/
def read (text : String) : Except ReadError (List (String × ConfigValue)) := do
  let lines ← layOut text.toList
  let d ← lines.foldlM Draft.addLine {}
  pure (d.root.table?.getD [])

end CodeAtlas.Toml
