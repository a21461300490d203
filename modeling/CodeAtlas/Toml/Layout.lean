import CodeAtlas.Text.Word
import CodeAtlas.Toml.Basic

/-!
# The layout of a document

Before its values are read, a document is gone through once. Every line has to start with a key or
with the heading of a table. Comments become blanks, and an array that runs over lines is put on one.
A newline right behind two quotes in a text that runs over lines becomes a quote itself, so that one
behind the opening quotes does not count.
-/

namespace CodeAtlas.Toml

inductive KeyPart where
  | outside
  | inName
  | behindName
deriving DecidableEq, Repr

inductive Heading where
  | none
  | table
  | tableArray
deriving DecidableEq, Repr

structure Layout where
  /-- The part as it is laid out, the last character first. -/
  behind : List Char := []
  key : KeyPart := .outside
  /-- Whether the key has a dot. -/
  dotted : Bool := false
  /-- The quote that is open. -/
  quote : Option Char := none
  /-- Whether what is in quotes may run over lines. -/
  overLines : Bool := false
  /-- How many arrays are open. -/
  depth : Int := 0
  heading : Heading := .none
  atStart : Bool := true
  inComment : Bool := false
deriving Repr

namespace Layout

def push (l : Layout) (c : Char) : Layout :=
  { l with behind := c :: l.behind }

def isKeyChar (c : Char) : Bool :=
  Text.isAlphanumeric c || c == '_' || c == '-'

def inKey (l : Layout) (c : Char) (rest : List Char) : Except ReadError (Option Layout) :=
  let ended : Except ReadError (Option Layout) :=
    if c == '=' then .ok none else .error .malformed
  if c == '\n' then .error .malformed
  else match l.quote, l.key with
    | some q, _ =>
      if c == q && !isEscaped l.behind then
        .ok (some { l.push c with key := .behindName, quote := none })
      else .ok (some (l.push c))
    | none, .behindName =>
      if Text.isBlank c || c == '.' then
        if l.dotted || c == '.' then
          match rest with
          | [] => .error .cutShort
          | next :: _ =>
            let key := if Text.isBlank next || next == '.' then KeyPart.behindName else .inName
            .ok (some { l.push c with key, dotted := true })
        else .ok (some (l.push c))
      else ended
    | none, _ =>
      if Text.isBlank c then .ok (some { l.push c with key := .behindName })
      else if c == '.' then .ok (some { l.push c with dotted := true })
      else if isKeyChar c then .ok (some (l.push c))
      else if l.dotted && l.behind.head? == some '.' && isQuote c then
        .ok (some { l.push c with quote := some c })
      else ended

/-- Opens or closes a text at a quote; three in a row let it run over lines. -/
def atQuote (l : Layout) (c : Char) (behind : List Char) : Layout :=
  let triple := behind.take 2 == [c, c]
  let escaped := c == '"'
    && if triple then isEscaped (behind.drop 2) else behind.head? != some c && isEscaped behind
  if l.quote.any (· != c) || escaped then l
  else
    let overLines := if triple then !l.overLines else l.overLines
    let isOpen := if triple then overLines else l.quote.isNone
    { l with overLines, quote := if isOpen then some c else none }

def atBracket (l : Layout) (c : Char) (behind rest : List Char) : Layout :=
  if l.quote.isSome then l
  else if c == '[' then
    if l.heading != .none then l
    else if l.atStart then
      { l with heading := if rest.head? == some '[' then .tableArray else .table }
    else { l with depth := l.depth + 1 }
  else match l.heading with
    | .table => { l with heading := .none }
    | .tableArray => if behind.head? == some ']' then { l with heading := .none } else l
    | .none => { l with depth := l.depth - 1 }

def atNewline (l : Layout) : Except ReadError Layout :=
  if l.quote.isSome || l.overLines then
    if !l.overLines then .error .malformed
    else match l.behind with
      | a :: b :: rest =>
        if isQuote a && a == b then
          match rest with
          | c :: rest => .ok { l with behind := a :: a :: a :: (if c == a then ' ' else c) :: rest }
          | [] => .ok { l with behind := [a, a, a] }
        else .ok (l.push '\n')
      | _ => .ok (l.push '\n')
  else if l.depth != 0 then .ok (l.push ' ')
  else .ok { l.push '\n' with atStart := true }

/-- The first character of a line that is no blank starts a key, unless it starts a heading. -/
def startLine (l : Layout) (c : Char) : Except ReadError Layout :=
  if !l.atStart || c == ' ' || c == '\t' then .ok l
  else if l.heading != .none then .ok { l with atStart := false }
  else if c == '=' then .error .malformed
  else .ok { l with atStart := false, key := .inName }

def outsideKey (l : Layout) (c : Char) (behind rest : List Char) : Except ReadError Layout :=
  if c == '\n' then l.atNewline
  else if c == '#' && l.quote.isNone && l.heading == .none then
    .ok { l.push ' ' with inComment := true }
  else
    let l := if isQuote c then l.atQuote c behind else l
    let l := if c == '[' || c == ']' then l.atBracket c behind rest else l
    (l.push c).startLine c

/-- One character more. The text is taken for a ring: before its first character stands its last. -/
def step (ring : List Char) (l : Layout) (c : Char) (rest : List Char) : Except ReadError Layout :=
  let behind := if l.behind.isEmpty then ring else l.behind
  if l.inComment && c != '\n' then .ok (l.push ' ')
  else
    let l := { l with inComment := false }
    if l.key == .outside then l.outsideKey c behind rest
    else do
      match ← l.inKey c rest with
      | some l => pure l
      | none => ({ l with key := .outside, dotted := false } : Layout).outsideKey c behind rest

def steps (ring : List Char) (l : Layout) : List Char → Except ReadError Layout
  | [] => .ok l
  | c :: rest => do
    let l ← step ring l c rest
    steps ring l rest

end Layout

def layOut (text : List Char) : Except ReadError (List (List Char)) := do
  let l ← Layout.steps text.reverse {} text
  if l.key != .outside || l.quote.isSome then .error .malformed
  else pure (Text.split ['\n'] l.behind.reverse)

end CodeAtlas.Toml
