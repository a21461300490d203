import CodeAtlas.Inference.Proposal
import CodeAtlas.Json.Reader

/-!
# Reading the reply of a language model

The JSON object is looked for inside a fence, or between the first and the last brace. Where it
cannot be read as it is, it is repaired, and at last its first flat object is tried alone.
-/

namespace CodeAtlas.Reply

def fence : List Char := ['`', '`', '`']

def openBrace : Char := '{'

def closeBrace : Char := '}'

/-- The longest start of a text that ends in a closing brace before a fence. -/
def closedBody? : List Char → Option (List Char)
  | [] => none
  | c :: rest =>
    match closedBody? rest with
    | some body => some (c :: body)
    | none =>
      if c == closeBrace && fence.isPrefixOf (rest.dropWhile Text.isBlank) then some [c] else none

def fencedAt? (cs : List Char) : Option (List Char) :=
  if fence.isPrefixOf cs then
    let cs := cs.drop fence.length
    let cs := if ['j', 's', 'o', 'n'].isPrefixOf cs then cs.drop 4 else cs
    match cs.dropWhile Text.isBlank with
    | c :: rest => if c == openBrace then (closedBody? rest).map (c :: ·) else none
    | [] => none
  else none

def fenced? : List Char → Option (List Char)
  | [] => none
  | c :: rest =>
    match fencedAt? (c :: rest) with
    | some body => some body
    | none => fenced? rest

def isControl (c : Char) : Bool :=
  c.val ≤ 0x1f || (0x7f ≤ c.val && c.val ≤ 0x9f)

def blankControls (cs : List Char) : List Char :=
  cs.map fun c => if isControl c then ' ' else c

/-- From the first opening brace to the last closing one behind it. -/
def braced? (cs : List Char) : Option (List Char) :=
  match ((cs.dropWhile (· != openBrace)).reverse.dropWhile (· != closeBrace)).reverse with
  | [] => none
  | body => some body

def nextMark? (cs : List Char) : Option Char :=
  (cs.dropWhile Text.isBlank).head?

/-- Drops commas in front of closing brackets. -/
def dropCommas : List Char → List Char
  | [] => []
  | c :: rest =>
    if c == ',' && (nextMark? rest == some closeBrace || nextMark? rest == some ']') then
      dropCommas rest
    else c :: dropCommas rest

/-- Adds commas between a closing and an opening bracket. -/
def addCommas (closing opening : Char) : List Char → List Char
  | [] => []
  | c :: rest =>
    if c == closing && nextMark? rest == some opening then
      c :: ',' :: addCommas closing opening rest
    else c :: addCommas closing opening rest

def repair (cs : List Char) : List Char :=
  addCommas ']' '[' (addCommas closeBrace openBrace (dropCommas cs))

/-- What is left of a flat object, outside or inside of an object in it. -/
def flatTail? (inside : Bool) : List Char → Option (List Char)
  | [] => none
  | c :: rest =>
    if c == openBrace then if inside then none else (flatTail? true rest).map (c :: ·)
    else if c == closeBrace then if inside then (flatTail? false rest).map (c :: ·) else some [c]
    else (flatTail? inside rest).map (c :: ·)

/-- The first object with objects in it, but none in those. -/
def flat? : List Char → Option (List Char)
  | [] => none
  | c :: rest =>
    match if c == openBrace then flatTail? false rest else none with
    | some tail => some (c :: tail)
    | none => flat? rest

def read? (cs : List Char) : Option Json :=
  (Json.read (String.ofList cs)).toOption

/-- The value of a text with an object in it, at the first way of reading it that works. -/
def value? (cs : List Char) : Option Json :=
  let repaired := repair cs
  ((read? cs).or (read? repaired)).or ((flat? repaired).bind read?)

def body? (text : String) : Option (List Char) :=
  let cs := Text.stripChars text.toList
  braced? (blankControls ((fenced? cs).getD cs))

/-- What a reply proposes; one that cannot be read proposes nothing. -/
def proposals (reply : Json) : Proposals :=
  match reply with
  | .str text => (((body? text).bind value?).map Proposals.ofJson).getD {}
  | _ => {}

end CodeAtlas.Reply
