import CodeAtlas.Script.Lexeme

/-!
# Lexemes that depend on what surrounds them

A semicolon may be left out before the end of a line, but only where the next line cannot go on with
the statement. The plain and the typed dialects draw this line differently. A question mark, text
between tags and text in a template are told apart by what follows them, too.
-/

namespace CodeAtlas.Script.Lexeme

/-- Spaces to these rules: no-break spaces and byte order marks are none. -/
def isSpace (c : Char) : Bool :=
  isAsciiBlank c || c == '\u1680' || ('\u2000' ≤ c && c ≤ '\u2006')
    || ('\u2008' ≤ c && c ≤ '\u200a') || c == '\u2028' || c == '\u2029' || c == '\u205f'
    || c == '\u3000'

def isSeparator (c : Char) : Bool :=
  c == '\n' || c == '\u2028' || c == '\u2029'

/-! ## Gaps of spaces and comments -/

inductive GapVerdict where
  /-- A slash that starts no comment. -/
  | refused
  /-- A block comment on one line. -/
  | unsettled
  | settled
deriving DecidableEq, Repr

structure Gap where
  verdict : GapVerdict
  length : Nat
  commented : Bool
deriving Repr

/-- Where in a gap a character stands: among spaces, after a slash, in a comment up to the end of the
line, in a block comment, or after a star in one. -/
inductive GapPart where
  | spaces | slash | line | block | star
deriving DecidableEq, Repr

/-- Measures a gap from inside one of its parts. With `brief` the gap ends after its first block
comment, unless a slash follows; `broken` says whether a block comment held a line end. -/
def gapFrom (typed brief : Bool) (part : GapPart) (broken commented : Bool) (length : Nat) :
    List Char → Gap
  | [] => ⟨if part == .slash then .refused else .settled, length, commented⟩
  | c :: rest =>
    let go (part : GapPart) (broken commented : Bool) :=
      gapFrom typed brief part broken commented (length + 1) rest
    match part with
    | .spaces =>
      if c == '/' then go .slash broken commented
      else if isSpace c then go .spaces broken commented
      else ⟨.settled, length, commented⟩
    | .slash =>
      if c == '/' then go .line broken true
      else if c == '*' then go .block broken commented
      else ⟨.refused, length, commented⟩
    | .line =>
      if c == nul then ⟨.settled, length, commented⟩
      else if c == '\n' || (!typed && isSeparator c) then go .spaces broken commented
      else go .line broken commented
    | .block =>
      if c == nul then ⟨.settled, length, commented⟩
      else if c == '*' then go .star broken commented
      else go .block (broken || isSeparator c) commented
    | .star =>
      if c == nul then ⟨.settled, length, commented⟩
      else if c == '/' then
        if brief && rest.head? != some '/' then
          ⟨if broken then .settled else .unsettled, length + 1, true⟩
        else go .spaces broken (commented || !typed)
      else if c == '*' then go .star broken commented
      else go .block (broken || isSeparator c) commented

def gap (typed brief : Bool) (text : List Char) : Gap :=
  gapFrom typed brief .spaces false false 0 text

/-! ## Semicolons -/

structure SemicolonPlace where
  typed : Bool
  /-- An operator could follow here. -/
  operand : Bool
  /-- A body could follow here. -/
  signature : Bool

structure SemicolonSearch where
  found : Bool
  length : Nat
  commented : Bool := false

def isWordChar (c : Char) : Bool :=
  if c.val < 0x80 then c.isAlpha else !isBlank c

def wordEnds (text : List Char) : Bool :=
  match text with
  | c :: _ => !isWordChar c
  | [] => true

def startsWithRelation : List Char → Bool
  | 'i' :: 'n' :: 's' :: 't' :: 'a' :: 'n' :: 'c' :: 'e' :: 'o' :: 'f' :: rest => wordEnds rest
  | 'i' :: 'n' :: rest => wordEnds rest
  | _ => false

/-- Whether a new line that starts with the text goes on with the statement before it. -/
def continuesStatement (place : SemicolonPlace) (text : List Char) : Bool :=
  match text with
  | [] => false
  | c :: rest =>
    let next (p : Char → Bool) : Bool := match rest with
      | d :: _ => p d
      | [] => false
    if c == '+' then !next (· == '+')
    else if c == '-' then !next (· == '-')
    else if c == '!' then next (· == '=')
    else if c == 'i' then startsWithRelation text
    else if place.typed then
      if c == '{' then place.signature
      else if c == '(' || c == '[' then place.operand
      else "`,.;*%><=?^|&/:".toList.contains c
    else if c == '.' then !next Char.isDigit
    else "`,:;*%><=[(?^|&/".toList.contains c

def searchNextLine (place : SemicolonPlace) (length : Nat) (commented : Bool) (text : List Char) :
    SemicolonSearch :=
  let g := gap place.typed false text
  { found := g.verdict != .refused && !continuesStatement place (text.drop g.length)
    length := length + g.length, commented := commented || g.commented }

/-- The typed dialects look for a line end, or for a closing brace that no colon follows. -/
def searchTyped (place : SemicolonPlace) (length : Nat) : List Char → SemicolonSearch
  | [] => { found := true, length }
  | c :: rest =>
    if c == nul then { found := true, length }
    else if c == '}' then
      let spaces := (rest.takeWhile isSpace).length
      if (rest.drop spaces).head? == some ':' then
        { found := place.operand, length := length + 1 + spaces }
      else { found := true, length := length + 1 + spaces }
    else if !isSpace c then { found := false, length }
    else if c == '\n' then searchNextLine place (length + 1) false rest
    else searchTyped place (length + 1) rest

/-- The plain dialect also looks behind comments on the same line. -/
def searchPlain (place : SemicolonPlace) : Nat → Nat → Bool → List Char → SemicolonSearch
  | 0, length, commented, _ => { found := false, length, commented }
  | fuel + 1, length, commented, text =>
    match text with
    | [] => { found := true, length, commented }
    | c :: rest =>
      if c == nul then { found := true, length, commented }
      else if c == '/' then
        let g := gap false true text
        let commented := commented || g.commented
        let length := length + g.length
        let behind := text.drop g.length
        if g.verdict == .refused then { found := false, length, commented }
        else if g.verdict == .settled && !place.operand && behind.head? != some ','
            && behind.head? != some '=' then { found := true, length, commented }
        else match behind with
          | [] => { found := false, length, commented }
          | d :: _ =>
            if d == '}' then { found := true, length, commented }
            else if isSpace d then searchPlain place fuel length commented behind
            else { found := false, length, commented }
      else if c == '}' then { found := true, length, commented }
      else if isSeparator c then searchNextLine place (length + 1) commented rest
      else if isSpace c then searchPlain place fuel (length + 1) commented rest
      else { found := false, length, commented }

def searchSemicolon (place : SemicolonPlace) (bound : Nat) (text : List Char) : SemicolonSearch :=
  if place.typed then searchTyped place 0 text else searchPlain place (2 * bound + 2) 0 false text

/-! ## Other lexemes -/

/-- The question mark of a conditional expression: the spaces before it are answered. The typed
dialects have others, before a colon, a comma or a closing parenthesis. -/
def ternaryMark (typed : Bool) (text : List Char) : Option Nat :=
  let spaces := (text.takeWhile isSpace).length
  match text.drop spaces with
  | '?' :: rest =>
    match rest with
    | '?' :: _ => none
    | '.' :: d :: _ => if !typed && d.isDigit then some spaces else none
    | ['.'] => none
    | _ =>
      if typed then
        match rest.dropWhile isSpace with
        | '.' :: d :: _ => if d.isDigit then some spaces else none
        | ['.'] => none
        | c :: _ => if c == ':' || c == ')' || c == ',' then none else some spaces
        | [] => some spaces
      else some spaces
  | _ => none

/-- Comments in the manner of markup run to the end of the line; the spaces before one are answered
first. -/
def markupComment (text : List Char) : Option (Nat × Nat) :=
  let spaces := (text.takeWhile isSpace).length
  let toLineEnd (rest : List Char) := spanOf (!isSeparator ·) rest
  match text.drop spaces with
  | '<' :: '!' :: '-' :: '-' :: rest => some (spaces, 4 + toLineEnd rest)
  | '-' :: '-' :: '>' :: rest => some (spaces, 3 + toLineEnd rest)
  | _ => none

/-- Text of a template up to its closing mark, the next substitution or the next escape. -/
def templateChars : List Char → Option Nat
  | [] => none
  | '`' :: _ => some 0
  | '\\' :: _ => some 0
  | '$' :: '{' :: _ => some 0
  | c :: rest => if c == nul then none else (templateChars rest).map (· + 1)

def templateText (text : List Char) : Option Nat :=
  (templateChars text).bind measured

def isTagText (c : Char) : Bool :=
  c != '<' && c != '>' && c != '{' && c != '}' && c != '&'

/-- Whether text between tags is more than the ends of lines and their indentation. -/
def tagTextCounts (lineStart : Bool) : List Char → Bool
  | [] => false
  | c :: rest =>
    if c == '\n' then tagTextCounts true rest
    else if lineStart && isSpace c then tagTextCounts true rest
    else true

def tagText (text : List Char) : Option Nat :=
  let n := spanOf isTagText text
  if tagTextCounts false (text.take n) then some n else none

end CodeAtlas.Script.Lexeme
