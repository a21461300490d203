import CodeAtlas.Json.Literal

/-!
# Repositories in memory

The texts of files by their paths.
-/

namespace CodeAtlas

/-- Paths with texts, each path once. -/
abbrev FileMap := List (String × String)

inductive FileMapError where
  | notAMap (type : String)
  | notAText (type : String)
deriving DecidableEq, Repr

namespace FileMapError

def message : FileMapError → String
  | notAMap type => s!"files must be a mapping of path to content, got {type}"
  | notAText type => s!"files entries must be str -> str, got str -> {type}"

end FileMapError

namespace FileMap

def ofMembers : List (String × Json) → Except FileMapError FileMap
  | [] => .ok []
  | (path, .str text) :: rest => (ofMembers rest).map ((path, text) :: ·)
  | (_, j) :: _ => .error (.notAText j.typeName)

def ofJson : Json → Except FileMapError FileMap
  | .obj members => ofMembers members
  | j => .error (.notAMap j.typeName)

def paths (files : FileMap) : List String :=
  files.map (·.1)

end FileMap

end CodeAtlas
