import CodeAtlas.Pattern.Extraction
import CodeAtlas.Script.Analyze
import CodeAtlas.Script.Fault

/-!
# The catalog of languages

Which extension belongs to which language, and how files of a language are read. Both can be
extended. Where in a script the faults are is for the parser to say.
-/

namespace CodeAtlas

structure Catalog where
  extensions : ExtensionTable
  patterns : List PatternLanguage
  /-- The outline of a script with faults. -/
  outline : Script.Dialect → String → Script.Outline := fun _ _ => .unnamed

inductive Reading where
  | analysed (a : FileAnalysis)
  /-- No language reads the file. -/
  | unsupported
  | syntaxError (outline : Script.Outline)
deriving Inhabited

namespace Catalog

def builtin : Catalog where
  extensions := builtinExtensions
  patterns := builtinLanguages

inductive LookupError where
  | unknownLanguage (language : String)
deriving DecidableEq, Repr

def LookupError.message : LookupError → String
  | unknownLanguage l => s!"No pattern extractor registered for language '{l}'"

def pattern? (c : Catalog) (language : String) : Option PatternLanguage :=
  c.patterns.find? (·.language == language)

def getPattern (c : Catalog) (language : String) : Except LookupError PatternLanguage :=
  match c.pattern? language with
  | some l => .ok l
  | none => .error (.unknownLanguage language)

/-- Adds a pattern language, in place of one of the same name. -/
def addPattern (c : Catalog) (l : PatternLanguage) : Catalog :=
  if c.patterns.any (·.language == l.language) then
    { c with patterns := c.patterns.map fun p => if p.language == l.language then l else p }
  else { c with patterns := c.patterns ++ [l] }

def addExtension (c : Catalog) (extension language : String) :
    Except ExtensionTable.RegisterError Catalog :=
  (c.extensions.register extension language).map fun extensions => { c with extensions }

def detect (c : Catalog) (path : String) : LanguageChoice :=
  c.extensions.detect path

def readScript (c : Catalog) (d : Script.Dialect) (path content : String) : Reading :=
  match Script.analyze? d path content with
  | some a => .analysed a
  | none => .syntaxError (c.outline d content)

/-- Reads a file in the language of its extension; a language without a name reads nothing. -/
def read (c : Catalog) (path content : String) : Reading :=
  match c.detect path with
  | ⟨.tree, some language⟩ =>
    match Script.Dialect.ofName? language with
    | some d => c.readScript d path content
    | none => .unsupported
  | ⟨.patterns, some language⟩ =>
    match c.pattern? language with
    | some l => if language.isEmpty then .unsupported else .analysed (l.analyze path content)
    | none => .unsupported
  | _ => .unsupported

end Catalog

end CodeAtlas
