import CodeAtlas.Text.Basic

/-!
# JSON with comments

Removes comments and the commas before closing brackets, outside of strings, so that what is left
can be read as JSON.
-/

namespace CodeAtlas.Json

inductive Mode where
  | code
  | string
  /-- After a backslash in a string. -/
  | escape
  | lineComment
  /-- In front of the star that opens a block comment. -/
  | blockStart
  | blockComment
  /-- In front of the slash that closes a block comment. -/
  | blockEnd
deriving DecidableEq, Repr

/-- Drops a comma that stands last but for blanks; the text is in reverse. -/
def dropLastComma (out : List Char) : List Char :=
  match out.dropWhile Text.isBlank with
  | ',' :: rest => out.takeWhile Text.isBlank ++ rest
  | _ => out

/-- What follows the text so far, which is in reverse. -/
def stripFrom (out : List Char) : Mode → List Char → List Char
  | _, [] => out.reverse
  | .code, c :: rest =>
    if c == '"' then stripFrom (c :: out) .string rest
    else if c == '/' && rest.head? == some '/' then stripFrom out .lineComment rest
    else if c == '/' && rest.head? == some '*' then stripFrom out .blockStart rest
    else if c == ']' || c == '}' then stripFrom (c :: dropLastComma out) .code rest
    else stripFrom (c :: out) .code rest
  | .string, c :: rest =>
    stripFrom (c :: out) (if c == '\\' then .escape else if c == '"' then .code else .string) rest
  | .escape, c :: rest => stripFrom (c :: out) .string rest
  | .lineComment, c :: rest =>
    if c == '\n' then stripFrom (c :: out) .code rest else stripFrom out .lineComment rest
  | .blockStart, _ :: rest => stripFrom out .blockComment rest
  | .blockComment, c :: rest =>
    stripFrom out (if c == '*' && rest.head? == some '/' then .blockEnd else .blockComment) rest
  | .blockEnd, _ :: rest => stripFrom out .code rest

/-- The text without comments and trailing commas. The newline that ends a comment stays. -/
def stripComments (text : String) : String :=
  String.ofList (stripFrom [] .code text.toList)

end CodeAtlas.Json
