import CodeAtlas.Graph.Assembly
import CodeAtlas.Inference.Proposal

/-!
# Merging proposals into the graphs

Proposals between nodes of the graphs become edges. An edge that is there already is only completed.
-/

namespace CodeAtlas

def holds (part : List Char) : List Char → Bool
  | [] => part.isEmpty
  | c :: rest => part.isPrefixOf (c :: rest) || holds part rest

def relationshipKind (label : String) : String :=
  let cs := (Text.lower label).toList
  if holds "call".toList cs || holds "invoke".toList cs then "invokes"
  else if Text.lower label == "imports" then "imports"
  else "llm-reference"

namespace Assembly

def shownFiles (a : Assembly) : List String :=
  (a.fileNodes.filter (·.kind == "file")).map (·.path)

/-- The names that a shown record goes by: its id, its exported name and its own name. -/
def recordNames (path : String) (f : FunctionRecord) : List String :=
  f.id :: ((f.exportedAs.filter (!·.isEmpty)).toList ++ [f.displayName]).map (exportKey path)

/-- Names of shown functions with their ids; the first one of a name counts. -/
def symbols (a : Assembly) : List (String × String) :=
  let shown := a.functionNodes.map (·.id)
  a.analyses.flatMap fun file =>
    (file.functions.filter fun f => shown.contains f.id).flatMap fun f =>
      (recordNames file.path f).map fun name => (name, f.id)

/-- The function that a proposal means: by its file and symbol, or by the symbol alone. -/
def symbolId? (table : List (String × String)) (r : SymbolRef) : Option String :=
  (table.lookup (exportKey r.filePath r.symbol)).or (table.lookup r.symbol)

def proposedFileEdge? (files : List String) (p : FileProposal) : Option Edge :=
  if files.contains p.source && files.contains p.target && p.source != p.target then
    some { source := p.source, target := p.target, kind := relationshipKind p.relationship
           provenance := .llm, confidence := p.confidence }
  else none

def proposedCallEdge? (table : List (String × String)) (p : FunctionProposal) : Option Edge :=
  match symbolId? table p.source, symbolId? table p.target with
  | some source, some target =>
    if source == target then none
    else some { source, target, kind := relationshipKind p.relationship, provenance := .llm
                confidence := p.confidence, reason := p.reason }
  | _, _ => none

end Assembly

def EdgeStore.mergeAll (s : EdgeStore) : List Edge → EdgeStore × Nat
  | [] => (s, 0)
  | e :: rest =>
    let added := if s.creates e then 1 else 0
    let (t, n) := (s.upsert e).mergeAll rest
    (t, added + n)

structure Merge where
  assembly : Assembly
  addedFiles : Nat
  addedFunctions : Nat

def Assembly.merge (a : Assembly) (p : Proposals) : Merge :=
  let (fileEdges, addedFiles) :=
    a.fileEdges.mergeAll (p.files.filterMap (proposedFileEdge? a.shownFiles))
  let (functionEdges, addedFunctions) :=
    a.functionEdges.mergeAll (p.functions.filterMap (proposedCallEdge? a.symbols))
  ⟨{ a with fileEdges, functionEdges }, addedFiles, addedFunctions⟩

end CodeAtlas
