import CodeAtlas.Graph.EdgeStore
import CodeAtlas.Graph.Exports
import CodeAtlas.Resolver.Basic

/-!
# Assembling the graphs

From the analyses of all files: imports are resolved, calls are tied to the exports they reach, and
what is left unresolved is summed up in warnings. Directories, files and functions become nodes.
-/

namespace CodeAtlas

/-- The two graphs while edges can still be added, with the analyses after resolution. -/
structure Assembly where
  analyses : List FileAnalysis
  exports : ExportIndex
  fileNodes : List FileNode
  functionNodes : List FunctionNode
  fileEdges : EdgeStore
  functionEdges : EdgeStore
  warnings : List String
deriving DecidableEq, Repr, Inhabited

def sortedTexts (xs : List String) : List String :=
  xs.mergeSort fun a b => decide (a ≤ b)

namespace Assembly

/-! ## Imports -/

/-- Where an import leads; one without a source leads nowhere. -/
def importTarget (r : Resolver) (path : String) (b : ImportBinding) : Option String :=
  if b.source.isEmpty then none else r.resolve path b.source

def bindTarget (r : Resolver) (path : String) (b : ImportBinding) : ImportBinding :=
  match importTarget r path b with
  | some t =>
    { b with target := some t, specifiers := b.specifiers.map fun s => { s with target := some t } }
  | none => b

def resolveImports (r : Resolver) (a : FileAnalysis) : FileAnalysis :=
  { a with imports := a.imports.map (bindTarget r a.path) }

def importEdge? (r : Resolver) (analysed : List String) (path : String) (b : ImportBinding) :
    Option Edge :=
  match importTarget r path b with
  | some target =>
    if analysed.contains target then
      some { source := path, target, kind := if b.reexport then "reexports" else "imports" }
    else none
  | none => none

def importEdges (r : Resolver) (analyses : List FileAnalysis) : List Edge :=
  let analysed := analyses.map (·.path)
  analyses.flatMap fun a => a.imports.filterMap (importEdge? r analysed a.path)

def unresolved (r : Resolver) (analyses : List FileAnalysis) (path : String) : List String :=
  List.eraseDups <| (analyses.filter (·.path == path)).flatMap fun a =>
    (a.imports.map (·.source)).filter fun s => !s.isEmpty && (r.resolve a.path s).isNone

/-! ## Calls -/

/-- What a call's name is bound to at module level: the first specifier with the name and source. -/
def calledSpecifier? (a : FileAnalysis) (c : CallSite) : Option Specifier :=
  (a.imports.filter fun b => !b.reexport && b.moduleLevel && c.source == some b.source).findSome?
    fun b => b.specifiers.find? fun s => s.binding != .wholeModule && s.localName == c.localName

/-- The record with the id of a call's caller, the last one if there are several. -/
def callerSlot? (a : FileAnalysis) (c : CallSite) : Option Nat :=
  (a.functions.zipIdx.reverse.find? (·.1.id == c.caller)).map (·.2)

structure Link where
  caller : Place
  callee : Place
  target : String
deriving DecidableEq, Repr, Inhabited

/-- The record that an imported name means in a file; a name that is not exported means the
default. -/
def calledPlace? (exports : ExportIndex) (analyses : List FileAnalysis) (target name : String) :
    Option Place :=
  (lookupExport exports analyses maxReexportSteps target name).or (exports.find? target "default")

def link? (exports : ExportIndex) (analyses : List FileAnalysis) (file : Nat) (a : FileAnalysis)
    (c : CallSite) : Option Link := do
  let s ← calledSpecifier? a c
  let target ← s.target
  let name := (c.importedName.filter (!·.isEmpty)).getD s.importedName
  let callee ← calledPlace? exports analyses target name
  let slot ← callerSlot? a c
  pure ⟨⟨file, slot⟩, callee, target⟩

def links (exports : ExportIndex) (analyses : List FileAnalysis) : List Link :=
  analyses.zipIdx.flatMap fun (a, file) => a.calls.filterMap (link? exports analyses file a)

def recordAt? (analyses : List FileAnalysis) (p : Place) : Option FunctionRecord :=
  analyses[p.file]?.bind (·.functions[p.slot]?)

def callEdge? (analyses : List FileAnalysis) (l : Link) : Option Edge := do
  let caller ← recordAt? analyses l.caller
  let callee ← recordAt? analyses l.callee
  pure { source := caller.id, target := callee.id, kind := "invokes" }

def showLinked (ls : List Link) (p : Place) (f : FunctionRecord) : FunctionRecord :=
  if ls.any fun l => l.caller == p || l.callee == p then { f with included := true } else f

def settleCall (exports : ExportIndex) (analyses : List FileAnalysis) (file : Nat)
    (a : FileAnalysis) (c : CallSite) : CallSite :=
  match link? exports analyses file a c with
  | some l => { c with target := some l.target }
  | none => c

def settleCalls (exports : ExportIndex) (analyses : List FileAnalysis) : List FileAnalysis :=
  let ls := links exports analyses
  analyses.zipIdx.map fun (a, file) =>
    { a with
      functions := a.functions.zipIdx.map fun (f, slot) => showLinked ls ⟨file, slot⟩ f
      calls := a.calls.map (settleCall exports analyses file a) }

/-! ## Nodes -/

def rootDirectory : String := "."

/-- Adds a directory and those above it, up to one that was found before. -/
def climb (found : List String) (directory : String) : List String :=
  if directory.isEmpty || found.contains directory then found
  else climb (found ++ [directory]) (Path.dirname directory)
termination_by if found.contains directory then 0 else directory.length + 1
decreasing_by
  rename_i h
  simp only [Bool.or_eq_true, not_or] at h
  rw [if_neg h.2]
  -- a directory that is its own parent was added just now
  rcases Path.dirname_eq_or_length_lt directory with heq | hlt
  · rw [heq, if_pos (by simp)]
    omega
  · split <;> omega

def directories (scanned : List String) : List String :=
  sortedTexts (scanned.foldl (fun found path => climb found (Path.dirname path)) [rootDirectory])

def directoryNode (rootLabel directory : String) : FileNode :=
  let name := if directory == rootDirectory then rootLabel else Path.basename directory
  { id := "dir:" ++ directory, label := name ++ "/", path := directory, kind := "directory" }

def fileNode (a : FileAnalysis) : FileNode :=
  { id := a.path, label := Path.basename a.path, path := a.path }

/-- Labelled by its exported name, unless that is the default. -/
def functionNode (f : FunctionRecord) : FunctionNode :=
  let label := (f.exportedAs.filter fun n => !n.isEmpty && n != "default").getD f.displayName
  { id := f.id, label, filePath := f.filePath, kind := f.kind.name, exportedAs := f.exportedAs
    span := f.span }

def byPath (analyses : List FileAnalysis) : List FileAnalysis :=
  analyses.mergeSort fun a b => decide (a.path ≤ b.path)

def shownRecords (analyses : List FileAnalysis) : List FunctionRecord :=
  ((byPath analyses).flatMap fun a => a.functions.filter (·.included)).foldl
    (fun seen f => if seen.any (·.id == f.id) then seen else seen ++ [f]) []

/-! ## Warnings -/

def maxUnresolvedShown : Nat := 5

def unresolvedWarning? (path : String) (specifiers : List String) : Option String :=
  let summary := ", ".intercalate (specifiers.take maxUnresolvedShown)
  if specifiers.isEmpty then none
  else if maxUnresolvedShown < specifiers.length then
    some s!"Some imports in {path} could not be resolved: {summary}, …"
  else some s!"Could not resolve imports in {path}: {summary}"

def unresolvedWarnings (r : Resolver) (analyses : List FileAnalysis) : List String :=
  (sortedTexts (analyses.map (·.path)).eraseDups).filterMap fun path =>
    unresolvedWarning? path (unresolved r analyses path)

/-! ## The whole -/

/-- Assembles the graphs of the analyses; the nodes of directories come from the scanned paths. -/
def ofAnalyses (analyses : List FileAnalysis) (r : Resolver) (scanned : List String)
    (rootLabel : String) : Assembly :=
  let resolved := analyses.map (resolveImports r)
  let exports := ExportIndex.ofAnalyses resolved
  let settled := settleCalls exports resolved
  let scanned := if scanned.isEmpty then analyses.map (·.path) else scanned
  { analyses := settled
    exports
    fileNodes := (directories scanned).map (directoryNode rootLabel)
      ++ (byPath analyses).map fileNode
    functionNodes := (shownRecords settled).map functionNode
    fileEdges := EdgeStore.upsertAll {} (importEdges r analyses)
    functionEdges :=
      EdgeStore.upsertAll {} ((links exports resolved).filterMap (callEdge? resolved))
    warnings := unresolvedWarnings r analyses }

def fileGraph (a : Assembly) : Graph FileNode :=
  ⟨a.fileNodes, a.fileEdges.edges⟩

def functionGraph (a : Assembly) : Graph FunctionNode :=
  ⟨a.functionNodes, a.functionEdges.edges⟩

end Assembly

end CodeAtlas
