import CodeAtlas.Text.Basic

/-!
# Pieces of a TOML document
-/

namespace CodeAtlas.Toml

inductive ReadError where
  /-- The text is no TOML. -/
  | malformed
  /-- A piece of the text ends before it can be told what it is. -/
  | cutShort
  /-- A value is used like a table that is none. -/
  | notATable
  /-- An escape stands for a number far beyond all characters. -/
  | hugeEscape
  /-- A text that runs over lines has an empty key. -/
  | namelessText
  /-- Arrays and tables stand too deep inside of each other. -/
  | tooDeep
deriving DecidableEq, Repr, Inhabited

def isQuote (c : Char) : Bool :=
  c == '"' || c == '\''

/-- Whether a character has an odd number of backslashes before it, the last one first. -/
def isEscaped (behind : List Char) : Bool :=
  (behind.takeWhile (· == '\\')).length % 2 == 1

def endsEscaped (text : List Char) : Bool :=
  isEscaped text.reverse

def inside (text : List Char) : List Char :=
  (text.drop 1).dropLast

def first (text : List Char) : Except ReadError Char :=
  match text.head? with
  | some c => .ok c
  | none => .error .cutShort

/-! ## Quotes in a line -/

/-- Goes on with pieces between single quotes while one of them is open; a double quote in it is part
of it. -/
def closeSingles (singles : List (List Char)) :
    List (List Char) → List (List Char) × List (List Char)
  | [] => (singles, [])
  | piece :: rest =>
    if singles.length % 2 == 0 then
      closeSingles (singles.dropLast
        ++ Text.split ['\''] ((singles.getLast?.getD []) ++ '"' :: piece)) rest
    else (singles, piece :: rest)

/-- Of the pieces between double quotes, the first is cut at single quotes too. -/
def cutFirst : List (List Char) → List (List Char)
  | [] => []
  | piece :: rest => Text.split ['\''] piece ++ rest

/-- The pieces of a line, by turns outside of quotes and inside. -/
def quotePieces (line : List Char) : List (List Char) :=
  match Text.split ['"'] line with
  | piece :: next :: rest =>
    if piece.contains '\'' then
      let (singles, rest) := closeSingles (Text.split ['\''] piece) (next :: rest)
      singles ++ cutFirst rest
    else cutFirst (piece :: next :: rest)
  | pieces => cutFirst pieces

/-- How many marks stand in the pieces before the first one that has a mark outside of quotes. -/
def quotedMarks (mark : List Char) (quoted : Bool) : List (List Char) → Nat
  | [] => 0
  | piece :: rest =>
    let count := Text.countMarks mark piece
    if !quoted && count != 0 then 0 else count + quotedMarks mark (!quoted) rest

end CodeAtlas.Toml
