import CodeAtlas.Graph.Basic
import CodeAtlas.Json.Writer

/-!
# Reports as JSON

Fields without a value are left out.
-/

namespace CodeAtlas

def member? {α : Type} (key : String) (toJson : α → Json) (value : Option α) :
    List (String × Json) :=
  match value with
  | some v => [(key, toJson v)]
  | none => []

def Position.toJson (p : Position) : Json :=
  .obj [("line", .int p.line), ("column", .int p.column)]

def Span.toJson (s : Span) : Json :=
  .obj [("start", s.start.toJson), ("end", s.stop.toJson)]

def FileNode.toJson (n : FileNode) : Json :=
  .obj [("id", .str n.id), ("label", .str n.label), ("path", .str n.path), ("kind", .str n.kind)]

def FunctionNode.toJson (n : FunctionNode) : Json :=
  .obj ([("id", .str n.id), ("label", .str n.label), ("file_path", .str n.filePath),
    ("kind", .str n.kind)]
    ++ member? "exported_as" .str n.exportedAs ++ member? "source_span" Span.toJson n.span)

def Edge.toJson (e : Edge) : Json :=
  .obj ([("id", .str e.key), ("source", .str e.source), ("target", .str e.target),
    ("kind", .str e.kind), ("provenance", .str e.provenance.name)]
    ++ member? "confidence" (fun c => .str c.name) e.confidence ++ member? "reason" .str e.reason)

def Graph.toJson {ν : Type} (node : ν → Json) (g : Graph ν) : Json :=
  .obj [("nodes", .arr (g.nodes.map node)), ("edges", .arr (g.edges.map Edge.toJson))]

def Stats.toJson (s : Stats) : Json :=
  .obj [("file_count", .int s.files), ("directory_count", .int s.directories),
    ("function_count", .int s.functions), ("duration_ms", .int s.durationMs)]

def Report.toJson (r : Report) : Json :=
  .obj [("file_graph", r.files.toJson FileNode.toJson),
    ("function_graph", r.functions.toJson FunctionNode.toJson),
    ("warnings", .ofStrings r.warnings), ("stats", r.stats.toJson)]

def Report.jsonText (maxDigits : Option Nat) (r : Report) (indent : Nat) :
    Except Json.WriteError String :=
  Json.writeWithin maxDigits { indent := some indent } r.toJson

end CodeAtlas
