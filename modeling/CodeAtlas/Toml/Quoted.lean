import CodeAtlas.Number.Integer
import CodeAtlas.Toml.Basic

/-!
# Texts in quotes

Single quotes take a text as it is; in double quotes a backslash stands before what cannot be written.
Three quotes enclose a text like one.
-/

namespace CodeAtlas.Toml

/-! ## The end of a text -/

/-- What is known of the pieces between quotes: whether the text is closed, and how many quotes in a
row there were. -/
structure Closing where
  triple : Bool
  closed : Bool := false
  row : Nat := 0

def Closing.step (s : Closing) (piece : List Char) : Except ReadError Closing :=
  if piece.isEmpty then
    .ok (if s.triple then { s with row := s.row + 1 } else { s with closed := true })
  else if endsEscaped piece then .ok s
  else if s.closed then .error .malformed
  else if !s.triple || 1 < s.row then .ok { s with closed := true }
  else .ok { s with row := 0 }

def checkClosing (quote : Char) (text : List Char) : Except ReadError Unit :=
  let (triple, pieces) := match Text.split [quote] (text.drop 1) with
    | [] :: [] :: rest => (true, rest)
    | pieces => (false, pieces)
  (pieces.foldlM Closing.step { triple }).map fun _ => ()

/-! ## Escapes -/

def simpleEscape? : Char → Option Char
  | '0' => some '\x00'
  | 'b' => some '\x08'
  | 'f' => some '\x0c'
  | 'n' => some '\n'
  | 'r' => some '\r'
  | 't' => some '\t'
  | '"' => some '"'
  | _ => none

def checkEscapes (escaped : Bool) : List (List Char) → Except ReadError Unit
  | [] => .ok ()
  | [] :: rest => checkEscapes (!escaped) rest
  | (c :: _) :: rest =>
    if (simpleEscape? c).isSome || c == 'u' || c == 'U' || escaped then checkEscapes false rest
    else .error .malformed

def charOfDigits (digits : List Char) : Except ReadError Char :=
  match Integer.digitsIn? 16 digits with
  | none => .error .malformed
  | some n => do
    let c ← first digits
    if c.toLower == 'd' then
      let second ← first (digits.drop 1)
      if (Integer.digitIn? 8 second).isNone then throw .malformed
    if 0x80000000 ≤ n then throw .hugeEscape
    if 0x10ffff < n || (0xd800 ≤ n && n ≤ 0xdfff) then throw .malformed
    pure (Char.ofNat n)

/-- Puts characters for their numbers: each piece behind the first starts with one, of so many
digits, unless the mark before it is escaped. -/
def replaceNumbers (mark : List Char) (width : Nat) (before : List Char) (escaped : Bool) :
    List (List Char) → Except ReadError (List Char)
  | [] => .ok before
  | piece :: rest =>
    if escaped then
      replaceNumbers mark width (before ++ mark ++ piece) (endsEscaped piece) rest
    else do
      let c ← charOfDigits (piece.take width)
      replaceNumbers mark width (before ++ c :: piece.drop width) false rest

def replaceMark (mark : List Char) (width : Nat) (text : List Char) :
    Except ReadError (List Char) :=
  match Text.split mark text with
  | before :: pieces => replaceNumbers mark width before (endsEscaped before) pieces
  | [] => .ok text

/-- Puts characters for their escapes; those with numbers stay. -/
def unescape : List Char → Except ReadError (List Char)
  | '\\' :: c :: rest => do
    let here ← match simpleEscape? c with
      | some x => pure [x]
      | none =>
        if c == '\\' then pure [c]
        else if c == 'u' || c == 'U' then pure ['\\', c]
        else throw .malformed
    pure (here ++ (← unescape rest))
  | c :: rest => do pure (c :: (← unescape rest))
  | [] => .ok []

/-! ## Texts -/

def dropQuotes (text : List Char) : List Char :=
  match text with
  | [_, _] => []
  | q :: a :: b :: rest =>
    if a == q && b == q then inside ((text.drop 2).take (rest.length - 1)) else inside text
  | _ => inside text

def quotedText (text : List Char) : Except ReadError String := do
  let quote ← first text
  checkClosing quote text
  if quote != '"' then pure (String.ofList (dropQuotes text))
  else
    checkEscapes false ((Text.split ['\\'] text).drop 1)
    let text ← replaceMark ['\\', 'u'] 4 text
    let text ← replaceMark ['\\', 'U'] 8 text
    pure (String.ofList (dropQuotes (← unescape text)))

end CodeAtlas.Toml
