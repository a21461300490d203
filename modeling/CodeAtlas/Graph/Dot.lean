import CodeAtlas.Graph.Document

/-!
# Reports as Graphviz text

One statement a line: the nodes, then the edges whose ends are nodes. Directories are boxes and
inferred edges are dashed.
-/

namespace CodeAtlas

namespace Dot

/-- Which graph is drawn; functions may say which file they are in. -/
inductive View where
  | files
  | functions (withFiles : Bool)
deriving DecidableEq, Repr, Inhabited

def View.ofName (name : String) : View :=
  if name == "files" then files else functions (name == "functions")

def escape (cs : List Char) : List Char :=
  cs.flatMap fun c => if c == '\\' || c == '"' then ['\\', c] else [c]

def quoted (s : String) : String :=
  String.ofList ('"' :: (escape s.toList ++ ['"']))

def statement (subject : String) (attributes : List String) : String :=
  "  " ++ subject ++ " [" ++ ", ".intercalate attributes ++ "];"

def label (s : String) : String :=
  "label=" ++ quoted s

def fileStatement (n : FileNode) : String :=
  statement (quoted n.id)
    (label n.label :: if n.kind == "directory" then ["shape=box"] else [])

def functionStatement (withFiles : Bool) (n : FunctionNode) : String :=
  statement (quoted n.id)
    (label n.label :: if withFiles then ["tooltip=" ++ quoted n.filePath] else [])

def edgeStatement (e : Edge) : String :=
  statement (quoted e.source ++ " -> " ++ quoted e.target)
    (label e.kind :: if e.provenance == .llm then ["style=dashed"] else [])

def drawn (ids : List String) (edges : List Edge) : List Edge :=
  edges.filter fun e => ids.contains e.source && ids.contains e.target

def lines (name : String) (nodes : List String) (edges : List Edge) : String :=
  "\n".intercalate
    (["digraph " ++ name ++ " \x7b", "  rankdir=LR;"] ++ nodes ++ edges.map edgeStatement
      ++ ["\x7d"])

end Dot

open Dot in
def Report.dotText (r : Report) (view : View) : String :=
  match view with
  | .files =>
    lines "RepoFiles" (r.files.nodes.map fileStatement)
      (drawn (r.files.nodes.map (·.id)) r.files.edges)
  | .functions withFiles =>
    lines "RepoFunctions" (r.functions.nodes.map (functionStatement withFiles))
      (drawn (r.functions.nodes.map (·.id)) r.functions.edges)

inductive Format where
  | json
  | dot
deriving DecidableEq, Repr, Inhabited

def Format.name : Format → String
  | json => "json"
  | dot => "dot"

def Format.ofName (name : String) : Format :=
  if name == "dot" then dot else json

def Report.render (r : Report) (f : Format) (view : Dot.View) : Except Json.WriteError String :=
  match f with
  | .json => r.jsonText Json.standard.digits 2
  | .dot => .ok (r.dotText view)

end CodeAtlas
