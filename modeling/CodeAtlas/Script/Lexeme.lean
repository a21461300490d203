/-!
# Lexemes of scripts

Each function measures the lexeme at the head of a text: it answers the number of characters the
lexeme takes, or `none` when the text does not start with one. No lexeme holds a NUL character.
-/

namespace CodeAtlas.Script.Lexeme

/-! ## Characters -/

def nul : Char := Char.ofNat 0

def isLineEnd (c : Char) : Bool :=
  c == '\n' || c == '\r' || c == '\u2028' || c == '\u2029'

def isAsciiBlank (c : Char) : Bool :=
  c == ' ' || ('\t' ≤ c && c ≤ '\r')

def isBlank (c : Char) : Bool :=
  isAsciiBlank c || c == '\u00a0' || c == '\u1680' || ('\u2000' ≤ c && c ≤ '\u200b')
    || c == '\u2028' || c == '\u2029' || c == '\u202f' || c == '\u205f' || c == '\u2060'
    || c == '\u3000' || c == '\ufeff'

/-- A name may hold every character that is no blank, control character or ASCII mark. -/
def isNameStart (c : Char) : Bool :=
  if c.val < 0x80 then c.isAlpha || c == '_' || c == '$' || c.val == 0x7f else !isBlank c

def isNamePart (c : Char) : Bool :=
  isNameStart c || c.isDigit

def isHexDigit (c : Char) : Bool :=
  c.isDigit || ('a' ≤ c && c ≤ 'f') || ('A' ≤ c && c ≤ 'F')

def isOctalDigit (c : Char) : Bool :=
  '0' ≤ c && c ≤ '7'

def spanOf (p : Char → Bool) (text : List Char) : Nat :=
  (text.takeWhile fun c => p c && c != nul).length

def measured (n : Nat) : Option Nat :=
  if n == 0 then none else some n

/-! ## Blanks and comments -/

def blanks (text : List Char) : Nat :=
  (text.takeWhile isBlank).length

def blockCommentRest : List Char → Option Nat
  | '*' :: '/' :: _ => some 2
  | c :: rest => if c == nul then none else (blockCommentRest rest).map (· + 1)
  | [] => none

def comment : List Char → Option Nat
  | '/' :: '/' :: rest => some (2 + spanOf (!isLineEnd ·) rest)
  | '/' :: '*' :: rest => (blockCommentRest rest).map (· + 2)
  | _ => none

def hashBang : List Char → Option Nat
  | '#' :: '!' :: rest => some (2 + spanOf (· != '\n') rest)
  | _ => none

/-! ## Names -/

def nameEscape : List Char → Option Nat
  | '\\' :: 'u' :: '{' :: rest =>
    match rest.span isHexDigit with
    | (_ :: ds, '}' :: _) => some (ds.length + 5)
    | _ => none
  | '\\' :: 'u' :: a :: b :: c :: d :: _ =>
    if [a, b, c, d].all isHexDigit then some 6 else none
  | _ => none

/-- The characters of a name after `skip` characters that are known to belong to it. -/
def nameRest (skip : Nat) : List Char → Nat
  | [] => 0
  | c :: rest =>
    match skip with
    | k + 1 => nameRest k rest + 1
    | 0 =>
      if isNamePart c then nameRest 0 rest + 1
      else match nameEscape (c :: rest) with
        | some n => nameRest (n - 1) rest + 1
        | none => 0

def name : List Char → Option Nat
  | [] => none
  | c :: rest =>
    if isNameStart c || (nameEscape (c :: rest)).isSome then some (nameRest 0 (c :: rest)) else none

def privateName : List Char → Option Nat
  | '#' :: rest => (name rest).map (· + 1)
  | _ => none

def isTagPart (c : Char) : Bool :=
  c.isAlphanum || c == '_' || c == '$'

def dashedName (text : List Char) : Option Nat :=
  match text with
  | c :: _ =>
    if c.isAlpha || c == '_' || c == '$' then
      let head := spanOf isTagPart text
      match text.drop head with
      | '-' :: rest => some (head + 1 + spanOf (fun c => isTagPart c || c == '-') rest)
      | _ => none
    else none
  | [] => none

/-- The words `static get` at the end of a line; blank lines after it belong to it. -/
def staticGet (text : List Char) : Option Nat :=
  let get (rest : List Char) (before : Nat) : Option Nat :=
    match rest with
    | 'g' :: 'e' :: 't' :: tail =>
      let gap := tail.takeWhile isAsciiBlank
      let upToLineEnd := (gap.reverse.dropWhile (· != '\n')).length
      if upToLineEnd == 0 then none else some (before + 3 + upToLineEnd)
    | _ => none
  match text with
  | 's' :: 't' :: 'a' :: 't' :: 'i' :: 'c' :: rest =>
    match (rest.takeWhile isAsciiBlank).length with
    | 0 => none
    | n => get (rest.drop n) (6 + n)
  | _ => none

/-! ## Numbers -/

def digitsRest (isOne : Char → Bool) : List Char → Nat
  | [] => 0
  | '_' :: rest =>
    match rest with
    | d :: _ => if isOne d then digitsRest isOne rest + 1 else 0
    | [] => 0
  | c :: rest => if isOne c then digitsRest isOne rest + 1 else 0

def digits (isOne : Char → Bool) : List Char → Nat
  | c :: rest => if isOne c then digitsRest isOne rest + 1 else 0
  | [] => 0

def bigMark : List Char → Nat
  | 'n' :: _ => 1
  | _ => 0

def exponent : List Char → Nat
  | e :: rest =>
    if e == 'e' || e == 'E' then
      let signed := match rest with
        | '+' :: r => (2, r)
        | '-' :: r => (2, r)
        | r => (1, r)
      match digits Char.isDigit signed.2 with
      | 0 => 0
      | k => signed.1 + k
    else 0
  | [] => 0

def radixNumber (isOne : Char → Bool) (rest : List Char) : Option Nat :=
  match digits isOne rest with
  | 0 => none
  | k => some (2 + k + bigMark (rest.drop k))

/-- Whether digits can be the whole part of a fraction: a zero alone, or at most one zero before
another digit. -/
def isWholePart : List Char → Bool
  | ['0'] => true
  | '0' :: d :: _ => d.isDigit && d != '0'
  | d :: _ => d.isDigit
  | [] => false

def decimalNumber (text : List Char) : Option Nat :=
  let whole := digits Char.isDigit text
  let rest := text.drop whole
  if whole == 0 then
    match rest with
    | '.' :: fraction =>
      (measured (digits Char.isDigit fraction)).map fun k => 1 + k + exponent (fraction.drop k)
    | _ => none
  else if isWholePart (text.take whole) then
    match rest with
    | '.' :: fraction =>
      let k := digits Char.isDigit fraction
      some (whole + 1 + k + exponent (fraction.drop k))
    | _ =>
      match exponent rest with
      | 0 => some (whole + bigMark rest)
      | k => some (whole + k)
  else some (whole + bigMark rest)

def number (text : List Char) : Option Nat :=
  let radix := match text with
    | '0' :: r :: rest =>
      if r == 'x' || r == 'X' then radixNumber isHexDigit rest
      else if r == 'o' || r == 'O' then radixNumber isOctalDigit rest
      else if r == 'b' || r == 'B' then radixNumber (fun c => c == '0' || c == '1') rest
      else none
    | _ => none
  radix <|> decimalNumber text

/-! ## Texts in quotes -/

def quotedText (quote : Char) (text : List Char) : Option Nat :=
  measured (spanOf (fun c => c != quote && c != '\\' && c != '\r' && c != '\n') text)

/-- Text of an attribute: an ampersand belongs to it unless a character reference could start. -/
def attributeTextRest (quote : Char) : List Char → Nat
  | [] => 0
  | '&' :: c :: rest =>
    if c == '#' || c.isAlpha || c == nul then 0 else attributeTextRest quote rest + 2
  | c :: rest =>
    if c == quote || c == '&' || c == nul then 0 else attributeTextRest quote rest + 1

def attributeText (quote : Char) (text : List Char) : Option Nat :=
  measured (attributeTextRest quote text)

/-- The longest known entity has fewer letters than this. -/
def entityLetters : Nat := 30

def characterReference (text : List Char) : Option Nat :=
  let closed (before : Nat) (n : Nat) (most : Nat) (rest : List Char) : Option Nat :=
    match rest.drop n with
    | ';' :: _ => if n == 0 || most < n then none else some (before + n + 1)
    | _ => none
  match text with
  | '&' :: '#' :: rest =>
    let hex := match rest with
      | x :: ds => if x == 'x' || x == 'X' then closed 3 (spanOf isHexDigit ds) 6 ds else none
      | [] => none
    hex <|> closed 2 (spanOf Char.isDigit rest) 5 rest
  | '&' :: rest => closed 1 (spanOf Char.isAlpha rest) entityLetters rest
  | _ => none

def escapeSequence : List Char → Option Nat
  | '\\' :: 'x' :: a :: b :: _ => if isHexDigit a && isHexDigit b then some 4 else none
  | '\\' :: 'u' :: rest => nameEscape ('\\' :: 'u' :: rest)
  | '\\' :: c :: rest =>
    if isOctalDigit c then some (1 + min 3 (spanOf isOctalDigit (c :: rest)))
    else if c == 'x' || c == nul then none
    else if c == '\r' || c == '?' then
      match rest with
      | d :: _ => if d == '\n' || d == '\u2028' || d == '\u2029' then some 3 else some 2
      | [] => some 2
    else some 2
  | _ => none

/-! ## Regular expressions -/

def regexClassRest : List Char → Option Nat
  | [] => none
  | ']' :: _ => some 1
  | '\\' :: c :: rest =>
    if c == '\n' || c == nul then none else (regexClassRest rest).map (· + 2)
  | c :: rest =>
    if c == '\n' || c == '\\' || c == nul then none else (regexClassRest rest).map (· + 1)

def regexRest (skip : Nat) : List Char → Nat
  | [] => 0
  | c :: rest =>
    match skip with
    | k + 1 => regexRest k rest + 1
    | 0 =>
      if c == '/' || c == '\n' || c == nul then 0
      else if c == '\\' then
        match rest with
        | d :: _ => if d == '\n' || d == nul then 0 else regexRest 1 rest + 1
        | [] => 0
      else if c == '[' then
        match regexClassRest rest with
        | some n => regexRest n rest + 1
        | none => 0
      else regexRest 0 rest + 1

def regexPattern (text : List Char) : Option Nat :=
  measured (regexRest 0 text)

def regexFlags (text : List Char) : Option Nat :=
  measured (spanOf Char.isLower text)

end CodeAtlas.Script.Lexeme
