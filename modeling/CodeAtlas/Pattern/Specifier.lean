import CodeAtlas.Text.Basic
import CodeAtlas.Text.Path

/-!
# From import texts to specifiers

How the text of an import is turned into a specifier that can be resolved to a file. The answer is
none where the text names nothing.
-/

namespace CodeAtlas.Pattern

/-! ## Texts -/

def splitOnChars (separator : List Char) : List Char → Nat → List Char → List (List Char)
  | [], _, piece => [piece.reverse]
  | c :: rest, skip, piece =>
    match skip with
    | k + 1 => splitOnChars separator rest k piece
    | 0 =>
      if separator.isPrefixOf (c :: rest) then
        piece.reverse :: splitOnChars separator rest (separator.length - 1) []
      else splitOnChars separator rest 0 (c :: piece)

def splitOnText (separator text : String) : List String :=
  (splitOnChars separator.toList text.toList 0 []).map String.ofList

def replaceChar (old new : Char) (s : String) : String :=
  String.ofList (s.toList.map fun c => if c == old then new else c)

def dropAround (p : Char → Bool) (s : String) : String :=
  String.ofList ((s.toList.dropWhile p).reverse.dropWhile p).reverse

def dropBehind (p : Char → Bool) (s : String) : String :=
  String.ofList (s.toList.reverse.dropWhile p).reverse

def nonEmpty? (s : String) : Option String :=
  if s.isEmpty then none else some s

/-! ## Specifiers -/

def asWritten (s : String) : Option String :=
  nonEmpty? (Text.strip s)

def dotted (s : String) : Option String :=
  (nonEmpty? (dropBehind (· == ';') (Text.strip s))).map (replaceChar '.' '/')

def lastSegment (separator : String) (s : String) : Option String :=
  ((splitOnText separator (Text.strip s)).filter (!·.isEmpty)).getLast?.map Text.strip

def relative (s : String) : Option String :=
  let s := Text.strip s
  if s.isEmpty then none
  else if s.startsWith "." || s.startsWith "/" then some s
  else some ("./" ++ s)

/-- One leading dot is the package of the importer, each further dot climbs to the package above. -/
def packageModule (s : String) : Option String :=
  let s := Text.strip s
  if s.isEmpty then none
  else
    let dots := (s.toList.takeWhile (· == '.')).length
    let rest := replaceChar '.' '/' (String.ofList (s.toList.drop dots))
    match dots with
    | 0 => some rest
    | 1 => some (if rest.isEmpty then "." else "./" ++ rest)
    | n + 1 =>
      let climb := List.replicate n ".."
      some (Path.ofSegments (if rest.isEmpty then climb else climb ++ [rest]))

def doubleColon (s : String) : Option String :=
  (nonEmpty? (Text.strip s)).map fun s => Path.ofSegments (splitOnText "::" s)

/-- Packages and libraries keep their scheme; other texts are paths. -/
def schemed (s : String) : Option String :=
  let s := Text.strip s
  if s.startsWith "package:" || s.startsWith "dart:" then some s else relative s

def fileOrPackage (extension : String) (s : String) : Option String :=
  let s := Text.strip s
  if s.endsWith extension then relative s else asWritten s

/-- A header in quotes is a path, one in angle brackets is not. -/
def header (s : String) : Option String :=
  let s := Text.strip s
  if s.startsWith "\"" then relative (dropAround (· == '"') s)
  else asWritten (dropAround (fun c => c == '<' || c == '>') s)

/-- The characters up to the first quote, if there is one after at least one character. -/
def closedQuote? (cs : List Char) : Option (List Char) :=
  match cs.span (· != '"') with
  | (c :: run, _ :: _) => some (c :: run)
  | _ => none

def firstQuoted : List Char → Option String
  | [] => none
  | c :: rest =>
    if c == '"' then
      match closedQuote? rest with
      | some run => some (String.ofList run)
      | none => firstQuoted rest
    else firstQuoted rest

def quotedPath (s : String) : Option String :=
  firstQuoted s.toList

def crate (s : String) : Option String :=
  ((splitOnText "::" (Text.strip s)).head?.map Text.strip).bind nonEmpty?

end CodeAtlas.Pattern
