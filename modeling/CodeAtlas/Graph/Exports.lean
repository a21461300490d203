import CodeAtlas.Analysis

/-!
# Exported names

The index of what files export, and the search for a name through the files that pass it on.
-/

namespace CodeAtlas

/-- Where a record stands: the number of its file and its number in the file. -/
structure Place where
  file : Nat
  slot : Nat
deriving DecidableEq, Repr, Inhabited

/-- The records behind exported names, keyed by `path:name`. -/
abbrev ExportIndex := List (String × Place)

def exportKey (path name : String) : String :=
  path ++ ":" ++ name

def FunctionRecord.exportKey? (r : FunctionRecord) (path : String) : Option String :=
  match r.exportedAs with
  | some name => if r.exported && !name.isEmpty then some (exportKey path name) else none
  | none => none

namespace ExportIndex

/-- The first record of a key stays. -/
def add (index : ExportIndex) (key : String) (place : Place) : ExportIndex :=
  if index.any (·.1 == key) then index else index ++ [(key, place)]

def addRecords (path : String) (file : Nat) (index : ExportIndex) :
    List (FunctionRecord × Nat) → ExportIndex
  | [] => index
  | (r, slot) :: rest =>
    addRecords path file
      (match r.exportKey? path with
       | some key => index.add key ⟨file, slot⟩
       | none => index) rest

def ofAnalyses (analyses : List FileAnalysis) : ExportIndex :=
  analyses.zipIdx.foldl (fun index (a, file) => addRecords a.path file index a.functions.zipIdx) []

def find? (index : ExportIndex) (path name : String) : Option Place :=
  List.lookup (exportKey path name) index

end ExportIndex

/-- The last analysis of a path. -/
def analysisOf? (analyses : List FileAnalysis) (path : String) : Option FileAnalysis :=
  analyses.reverse.find? (·.path == path)

def maxReexportSteps : Nat := 5

/-- What a specifier of a re-export passes a name on as: the name it stands for itself, or the same
name through a star, which does not pass on the default. -/
def Specifier.passesOn? (s : Specifier) (name : String) : Option String :=
  if s.localName == name && s.importedName != "*" then some s.importedName
  else if s.localName == "*" && name != "default" then some name
  else none

/-- The record that a file exports under a name, by at most so many re-exports. -/
def lookupExport (index : ExportIndex) (analyses : List FileAnalysis) :
    Nat → String → String → Option Place
  | 0, path, name => index.find? path name
  | steps + 1, path, name =>
    match index.find? path name with
    | some place => some place
    | none =>
      match analysisOf? analyses path with
      | none => none
      | some a =>
        a.imports.findSome? fun b =>
          match b.reexport, b.target with
          | true, some target =>
            b.specifiers.findSome? fun s =>
              match s.passesOn? name with
              | some inner => lookupExport index analyses steps target inner
              | none => none
          | _, _ => none

end CodeAtlas
