import CodeAtlas.Language
import CodeAtlas.Script.Extraction
import CodeAtlas.Script.Parse

/-!
# Analysing a script
-/

namespace CodeAtlas.Script

def Dialect.name : Dialect → String
  | javascript => "javascript"
  | typescript => "typescript"
  | tsx => "tsx"

def Dialect.ofName? (name : String) : Option Dialect :=
  [javascript, typescript, tsx].find? (·.name == name)

inductive DialectError where
  | unknown (name : String)
deriving DecidableEq, Repr

def DialectError.message : DialectError → String
  | unknown name => s!"No grammar mapped for language '{name}'"

def Dialect.getByName (name : String) : Except DialectError Dialect :=
  match ofName? name with
  | some d => .ok d
  | none => .error (.unknown name)

def Walk.analysis (w : Walk) (d : Dialect) (content : String) : FileAnalysis :=
  { path := w.path, language := d.name, imports := w.imports
    functions := w.entries.map (·.record), calls := w.calls
    preview := preview content, size := content.length }

/-- The analysis of a script; none when the text has a syntax error. -/
def analyze? (d : Dialect) (path content : String) : Option FileAnalysis :=
  (parse d content).map fun root => (walkModule path root).analysis d content

end CodeAtlas.Script
