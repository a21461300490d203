import CodeAtlas.Config.Value
import CodeAtlas.Number.Decimal
import CodeAtlas.Toml.Moment
import CodeAtlas.Toml.Quoted

/-!
# Lines of a document

A line gives a value to a key. The value is what stands behind the first equals sign behind which
something stands that looks like a value. The items of an array are of one kind, and no key is given
twice.
-/

namespace CodeAtlas.Toml

/-! ## Plain values -/

def isStrict (text : List Char) : Bool :=
  let text := Text.stripChars text
  let has (a b : Char) : Bool := (text.zip (text.drop 1)).contains (a, b)
  let startsWell : Bool := match text with
    | [] => false
    | '0' :: c :: _ => ['.', 'o', 'b', 'x'].contains c
    | s :: '0' :: c :: _ => !(s == '+' || s == '-') || c == '.'
    | _ => true
  startsWell && text.head? != some '_' && text.getLast? != some '_'
    && !has '_' '.' && !has '.' '_' && !has '_' '_'

def unsignedNumber? (text : List Char) : Option ConfigValue :=
  let has (c : Char) : Bool := text.contains c
  let word := String.ofList (text.map Char.toLower)
  if has '.' || (!has 'x' && (has 'e' || has 'E')) then
    if (text.dropWhile (· != '.')) == ['.'] || !((text.head?.map Char.isDigit).getD false) then none
    else (Decimal.ofText? text).map .real
  else if word == "inf" || word == "nan" then (Decimal.ofText? text).map .real
  else (Integer.ofLiteral? text).map .int

def negated : ConfigValue → ConfigValue
  | .int n => .int (-n)
  | .real x => .real (Binary64.sub (.finite false 0 0) x)
  | v => v

def number? (text : List Char) : Option ConfigValue :=
  let plain (cs : List Char) := cs.filter (· != '_')
  match text with
  | '-' :: cs => (unsignedNumber? (plain cs)).map negated
  | '+' :: cs => unsignedNumber? (plain cs)
  | cs => unsignedNumber? (plain cs)

/-- A time, a date or a number; only in a number zeros and underscores may be amiss. -/
def plainValue (strict : Bool) (text : List Char) : Except ReadError ConfigValue :=
  let orFail (v : Option ConfigValue) : Except ReadError ConfigValue :=
    match v with
    | some v => .ok v
    | none => .error .malformed
  match clock? text with
  | some (hour, minute, second, micro) =>
    orFail ((TimeOfDay.of? hour minute second micro).map fun t => .moment (.time t))
  | none =>
    match date? text with
    | some m => .ok (.moment m)
    | none => if strict then orFail (number? text) else .error .malformed

/-! ## Arrays -/

def kindOf : ConfigValue → Nat
  | .null => 0
  | .bool _ => 1
  | .int _ => 2
  | .real _ => 3
  | .text _ => 4
  | .moment (.time _) => 5
  | .moment _ => 6
  | .list _ => 7
  | .table _ => 8

/-- Whether an array holds texts, going by the first of its items. -/
def holdsTexts (array : List Char) : Bool :=
  ((Text.stripChars (inside array)).head?.map isQuote).getD false

def isBounded (piece : List Char) : Bool :=
  match piece with
  | [] => true
  | q :: rest => (rest.getLast?.getD q) == q && !endsEscaped rest.dropLast

def isCutOff (piece : List Char) : Bool :=
  let back := piece.reverse
  !isBounded piece || match piece with
    | q :: a :: b :: _ => q == a && a == b && back[1]? != some q && back[2]? != some q
    | _ => false

/-- Joins pieces of texts that a comma has cut. The last piece is taken as it is, unless it was
joined. -/
def joinTexts (piece : List Char) (joined : Bool) :
    List (List Char) → Except ReadError (List (List Char))
  | [] => if joined && isCutOff (Text.stripChars piece) then .error .cutShort else .ok [piece]
  | next :: rest =>
    if isCutOff (Text.stripChars piece) then joinTexts (piece ++ ',' :: next) true rest
    else (joinTexts next false rest).map (piece :: ·)

def arrayPieces (piece : List Char) (depth : Int) : List Char → List (List Char)
  | [] => [piece.reverse]
  | c :: rest =>
    if c == ',' && depth == 0 then piece.reverse :: arrayPieces [] 0 rest
    else
      let depth := if c == '[' then depth + 1 else if c == ']' then depth - 1 else depth
      arrayPieces (c :: piece) depth rest

inductive BracePart where
  | inTable
  /-- Right behind a table. -/
  | behindTable
  /-- Between two tables. -/
  | between

/-- The tables of an array of tables in braces. Either kind of quote opens a text and closes it. -/
def tablePieces (part : BracePart) (piece : List Char) (depth : Nat) (quoted : Bool) :
    List Char → List (List Char)
  | [] => []
  | c :: rest =>
    match part with
    | .behindTable => tablePieces .between [] depth false rest
    | .between =>
      if c == '{' then tablePieces .inTable [c] depth false rest
      else tablePieces .between [] depth false rest
    | .inTable =>
      let quoted := if !isQuote c then quoted else !quoted || isEscaped piece
      let depth := if !quoted && c == '{' then depth + 1 else depth
      if quoted || c != '}' then tablePieces .inTable (c :: piece) depth quoted rest
      else if 1 < depth then tablePieces .inTable (c :: piece) (depth - 1) quoted rest
      else (c :: piece).reverse :: tablePieces .behindTable [] depth false rest

def itemPieces (array : List Char) : Except ReadError (List (List Char)) :=
  let content := inside array
  if content.contains '[' && (Text.stripChars (content.takeWhile (· != '['))).isEmpty then
    .ok (arrayPieces [] 0 content)
  else if (Text.stripChars content).head? == some '{' then
    match content with
    | c :: rest => .ok (tablePieces .inTable [c] (if c == '{' then 1 else 0) false rest)
    | [] => .ok []
  else match Text.split [','] content with
    | piece :: rest => if holdsTexts array then joinTexts piece false rest else .ok (piece :: rest)
    | [] => .ok []

/-! ## Tables in braces -/

def looksComplete (value : List Char) : Bool :=
  match value.head?, value.getLast? with
  | some a, some b =>
    (a == b && isQuote a) || a == '-' || a.isDigit || value == "true".toList
      || value == "false".toList || (a == '[' && b == ']') || (a == '{' && b == '}')
  | _, _ => false

def memberValue (piece : List Char) : Except ReadError (List Char) :=
  if !piece.contains '=' then .error .malformed
  else
    let value := Text.stripChars ((piece.dropWhile (· != '=')).drop 1)
    if value.isEmpty then .error .cutShort else .ok value

def joinMembers (piece : List Char) : List (List Char) → Except ReadError (List (List Char))
  | [] => do
    if looksComplete (← memberValue piece) then pure [piece] else throw .malformed
  | next :: rest => do
    if looksComplete (← memberValue piece) then pure (piece :: (← joinMembers next rest))
    else joinMembers (piece ++ ',' :: next) rest

def memberPieces (table : List Char) : Except ReadError (List (List Char)) :=
  match Text.split [','] (inside table) with
  | [piece] => if (Text.stripChars piece).isEmpty then .ok [] else joinMembers piece []
  | piece :: rest => joinMembers piece rest
  | [] => .ok []

/-! ## Keys and values -/

structure Assignment where
  key : List Char
  value : List Char
  strict : Bool

def startsValue (text : List Char) : Bool :=
  match text with
  | [] => true
  | c :: _ =>
    isQuote c || [' ', '\t', '[', '{'].contains c
      || ["true".toList, "false".toList].contains (Text.stripChars text)
      || (Decimal.ofText? text).isSome || (date? text).isSome || (clock? text).isSome

/-- Cuts a line at the first equals sign, from so many on, behind which a value starts. -/
def cutLine (line : List Char) (marks : Nat) (pieces : List (List Char)) (value : List Char)
    (strict : Bool) : Nat → Except ReadError Assignment
  | 0 => .error .malformed
  | fuel + 1 =>
    if startsValue value then
      .ok ⟨Text.stripChars (Text.join ['='] pieces.dropLast), Text.stripChars value, strict⟩
    else
      let pieces := Text.splitAtMost ['='] (marks + 1) line
      let next := pieces.getLast?.getD []
      if next == value then .error .malformed
      else cutLine line (marks + 1) pieces next (strict && isStrict next) fuel

def assignment (line : List Char) : Except ReadError Assignment :=
  let marks := 1 + quotedMarks ['='] false (quotePieces line)
  let pieces := Text.splitAtMost ['='] marks line
  let value := pieces.getLast?.getD []
  let isNumber := (value.head?.map Char.isDigit).getD false
  cutLine line marks pieces (if isNumber then value.filter (· != '_') else value) (isStrict value)
    (line.length + 2)

def quotedLevels (quoted : Bool) : List (List Char) → List (List Char)
  | [] => []
  | piece :: rest =>
    (if quoted then [piece] else (Text.split ['.'] piece).map Text.stripChars)
      ++ quotedLevels (!quoted) rest

def keyPath (key : List Char) : Except ReadError (List String × String) :=
  if key.contains '.' then
    let levels :=
      if key.any isQuote then quotedLevels false (quotePieces key) else Text.split ['.'] key
    match levels.reverse.dropWhile List.isEmpty with
    | [] => .error .cutShort
    | name :: above =>
      .ok (((above.filter (!·.isEmpty)).map String.ofList).reverse,
        String.ofList (Text.stripChars name))
  else do
    let c ← first key
    if isQuote c && key.getLast? == some c then
      pure ([], String.ofList (← unescape (inside key)))
    else pure ([], String.ofList key)

/-- The last piece of an array that is not closed, from its last quote after a comma on. -/
def openPiece (piece : List Char) : List (List Char) → Except ReadError (List Char)
  | [] => .ok piece
  | before :: rest => do
    if isQuote (← first piece) then pure piece else openPiece (before ++ ',' :: piece) rest

def isOpenText (text : List Char) : Except ReadError Bool := do
  let quote ← first text
  if !isQuote quote then pure false
  else if (← first (text.drop 1)) != quote then pure false
  else if (← first (text.drop 2)) != quote then pure false
  else pure !(5 < text.length && (text.reverse.take 3).all (· == quote))

/-- Whether a value is a text, or an array that ends with one, that goes on in the next line. -/
def runsOn (value : List Char) : Except ReadError Bool :=
  if value.length < 3 then .ok false
  else if value.head? == some '[' && value.getLast? != some ']' && holdsTexts value then
    match (Text.split [','] (Text.stripChars (value.drop 1))).reverse with
    | piece :: before => (openPiece piece before).bind isOpenText
    | [] => .ok false
  else isOpenText value

structure OpenText where
  key : String
  /-- Its first character. -/
  opening : Char
  /-- What there is of it, the last character first. -/
  behind : List Char
  /-- Whether the next line follows without a newline. -/
  joined : Bool
deriving Repr

/-- What there is of a value at the end of a line: a backslash joins it to the next one. -/
def openText (key : String) (opening : Char) (behind : List Char) : OpenText :=
  if isEscaped behind then ⟨key, opening, behind.drop 1, true⟩
  else ⟨key, opening, '\n' :: behind, false⟩

def changeInside {α : Type} (change : ConfigValue → Except ReadError (ConfigValue × α)) :
    List String → ConfigValue → Except ReadError (ConfigValue × α)
  | [], v => change v
  | level :: rest, .table members => do
    let (inner, a) ← changeInside change rest ((members.lookup level).getD (.table []))
    pure (.table (ConfigValue.insertMember members level inner), a)
  | _ :: _, _ => .error .notATable

def addMember (name : String) (content : ConfigValue ⊕ OpenText) (v : ConfigValue) :
    Except ReadError (ConfigValue × Option OpenText) :=
  match v with
  | .table members =>
    if (members.lookup name).isSome then .error .malformed
    else match content with
      | .inl value => .ok (.table (members ++ [(name, value)]), none)
      | .inr text => if name.isEmpty then .error .namelessText else .ok (v, some text)
  | _ => .error .malformed

mutual

def readValue (strict : Bool) : Nat → List Char → Except ReadError ConfigValue
  | 0, _ => .error .tooDeep
  | fuel + 1, text => do
    let c ← match text.head? with
      | some c => pure c
      | none => throw .malformed
    if text == "true".toList then pure (.bool true)
    else if text == "false".toList then pure (.bool false)
    else if isQuote c then (quotedText text).map .text
    else if c == '[' then (readArray fuel text).map .list
    else if c == '{' then readTable fuel text (.table [])
    else plainValue strict text

def readArray : Nat → List Char → Except ReadError (List ConfigValue)
  | 0, _ => .error .tooDeep
  | fuel + 1, text => do
    let pieces ← itemPieces (Text.stripChars text)
    let items ← ((pieces.map Text.stripChars).filter (!·.isEmpty)).foldlM
      (fun items piece => do
        let item ← readValue true fuel piece
        if items.head?.all (kindOf · == kindOf item) then pure (item :: items)
        else throw .malformed) []
    pure items.reverse

/-- Adds the members of a table in braces to a table, up to one that is left open. -/
def readTable : Nat → List Char → ConfigValue → Except ReadError ConfigValue
  | 0, _, _ => .error .tooDeep
  | fuel + 1, text, table => do
    let pieces ← memberPieces text
    let (table, _) ← pieces.foldlM
      (fun (table, isOpen) piece =>
        if isOpen then pure (table, isOpen)
        else (readLine fuel piece table).map fun (table, text) => (table, text.isSome))
      (table, false)
    pure table

def readLine : Nat → List Char → ConfigValue → Except ReadError (ConfigValue × Option OpenText)
  | 0, _, _ => .error .tooDeep
  | fuel + 1, line, table => do
    let a ← assignment line
    let (above, name) ← keyPath a.key
    changeInside (fun table => do
      let content ←
        if ← runsOn a.value then
          pure (Sum.inr (openText name (← first a.value) a.value.reverse))
        else (readValue a.strict fuel a.value).map Sum.inl
      addMember name content table) above table

end

/-- How many readers may be at work inside of each other. -/
def nestingLimit : Nat := 990

end CodeAtlas.Toml
