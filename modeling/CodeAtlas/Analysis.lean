/-!
# What is known about one source file

The facts that extraction collects from a file: the modules it imports, the functions and classes it
declares, and the calls it makes to imported names. Lines count from one, columns are byte offsets
from zero.
-/

namespace CodeAtlas

structure Position where
  line : Int
  column : Int
deriving DecidableEq, Repr, Inhabited

structure Span where
  start : Position
  stop : Position
deriving DecidableEq, Repr, Inhabited

inductive BindingKind where
  | named
  | defaultExport
  | wholeModule
deriving DecidableEq, Repr, Inhabited

def BindingKind.name : BindingKind → String
  | named => "named"
  | defaultExport => "default"
  | wholeModule => "namespace"

/-- Import declarations, `import()` expressions and `require` calls. -/
inductive ImportKind where
  | es
  | dynamic
  | require
deriving DecidableEq, Repr, Inhabited

def ImportKind.name : ImportKind → String
  | es => "es"
  | dynamic => "dynamic"
  | require => "require"

inductive RecordKind where
  | function
  | arrow
  | method
  | classLike
  | module
deriving DecidableEq, Repr, Inhabited

def RecordKind.name : RecordKind → String
  | function => "function"
  | arrow => "arrow"
  | method => "method"
  | classLike => "class"
  | module => "module"

/-- One name brought in by an import; `target` is the file it resolves to. -/
structure Specifier where
  localName : String
  importedName : String
  binding : BindingKind
  target : Option String := none
deriving DecidableEq, Repr, Inhabited

structure ImportBinding where
  source : String
  kind : ImportKind := .es
  specifiers : List Specifier := []
  target : Option String := none
  reexport : Bool := false
  /-- False for an import inside a function or a block. -/
  moduleLevel : Bool := true
deriving DecidableEq, Repr, Inhabited

def ImportBinding.isSideEffect (b : ImportBinding) : Bool :=
  b.specifiers.isEmpty

structure FunctionRecord where
  id : String
  displayName : String
  filePath : String
  kind : RecordKind
  exported : Bool := false
  exportedAs : Option String := none
  span : Option Span := none
  /-- Whether the record is shown in the function graph. -/
  included : Bool := false
deriving DecidableEq, Repr, Inhabited

/-- The first exported name stays; every export makes the record visible. -/
def FunctionRecord.markExported (r : FunctionRecord) (name : String) : FunctionRecord :=
  { r with exported := true, exportedAs := some (r.exportedAs.getD name), included := true }

structure CallSite where
  caller : String
  localName : String
  importedName : Option String := none
  source : Option String := none
  target : Option String := none
deriving DecidableEq, Repr, Inhabited

structure FileAnalysis where
  path : String
  language : String
  imports : List ImportBinding := []
  functions : List FunctionRecord := []
  calls : List CallSite := []
  preview : String := ""
  /-- Length of the file in code points. -/
  size : Nat := 0
deriving DecidableEq, Repr, Inhabited

def FileAnalysis.functionById? (a : FileAnalysis) (id : String) : Option FunctionRecord :=
  a.functions.find? (·.id == id)

end CodeAtlas
