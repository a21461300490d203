import CodeAtlas.Language
import CodeAtlas.Pattern.Languages

/-!
# Reading a file by patterns

Imports and declarations in the order of the language's patterns, each listed once. There are no
scopes and no calls. Every declaration is shown; the second, third, ... of one name are numbered.
-/

namespace CodeAtlas

structure Declaration where
  name : String
  kind : RecordKind
deriving DecidableEq, Repr, Inhabited

namespace PatternLanguage

def pieces (l : PatternLanguage) (text : String) : List String :=
  match l.separator with
  | some s => if s.isEmpty then [text] else Pattern.splitOnText s text
  | none => [text]

def importsOf (l : PatternLanguage) (content : String) : List String :=
  List.eraseDups <| l.imports.flatMap fun (p, specifier) =>
    (p.keptTexts content).flatMap fun text =>
      ((l.pieces text).filterMap specifier).filter (!·.isEmpty)

def declarationsOf (l : PatternLanguage) (content : String) : List Declaration :=
  List.eraseDups <| l.declarations.flatMap fun (p, kind) =>
    ((p.keptTexts content).filter fun name => !name.isEmpty && !l.reserved.contains name).map
      fun name => ⟨name, kind⟩

/-- The name of the declaration inside its file, after those with the names before it. -/
def localId (before : List Declaration) (d : Declaration) : String :=
  let count := (before.filter (·.name == d.name)).length
  if count == 0 then d.name else s!"{d.name}#{count + 1}"

def recordsFrom (path : String) (before : List Declaration) : List Declaration → List FunctionRecord
  | [] => []
  | d :: rest =>
    { id := s!"{path}::{localId before d}", displayName := d.name, filePath := path, kind := d.kind
      included := true } :: recordsFrom path (before ++ [d]) rest

def analyze (l : PatternLanguage) (path content : String) : FileAnalysis :=
  { path, language := l.language
    imports := (l.importsOf content).map fun source => { source }
    functions := recordsFrom path [] (l.declarationsOf content)
    preview := preview content, size := content.length }

end PatternLanguage

end CodeAtlas
