import CodeAtlas.Analysis

/-!
# Graphs of files and functions

Nodes are named by their ids. An edge is named by its endpoints: `source->target`.
-/

namespace CodeAtlas

/-- Where an edge comes from: the text of the sources, or the guess of a language model. -/
inductive Provenance where
  | static
  | llm
deriving DecidableEq, Repr, Inhabited

def Provenance.name : Provenance → String
  | static => "static"
  | llm => "llm"

def Provenance.ofName? (name : String) : Option Provenance :=
  [static, llm].find? (·.name == name)

inductive Confidence where
  | low
  | medium
  | high
deriving DecidableEq, Repr, Inhabited

def Confidence.name : Confidence → String
  | low => "low"
  | medium => "medium"
  | high => "high"

def Confidence.ofName? (name : String) : Option Confidence :=
  [low, medium, high].find? (·.name == name)

structure Edge where
  source : String
  target : String
  kind : String
  provenance : Provenance := .static
  confidence : Option Confidence := none
  reason : Option String := none
deriving DecidableEq, Repr, Inhabited

def edgeKey (source target : String) : String :=
  source ++ "->" ++ target

def Edge.key (e : Edge) : String :=
  edgeKey e.source e.target

structure FileNode where
  id : String
  label : String
  path : String
  /-- Either `file` or `directory`. -/
  kind : String := "file"
deriving DecidableEq, Repr, Inhabited

structure FunctionNode where
  id : String
  label : String
  filePath : String
  kind : String := "function"
  exportedAs : Option String := none
  span : Option Span := none
deriving DecidableEq, Repr, Inhabited

structure Graph (ν : Type) where
  nodes : List ν := []
  edges : List Edge := []
deriving DecidableEq, Repr, Inhabited

structure Stats where
  files : Int := 0
  directories : Int := 0
  functions : Int := 0
  durationMs : Int := 0
deriving DecidableEq, Repr, Inhabited

structure Report where
  files : Graph FileNode
  functions : Graph FunctionNode
  warnings : List String := []
  stats : Stats := {}
deriving DecidableEq, Repr, Inhabited

end CodeAtlas
