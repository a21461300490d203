import CodeAtlas.Script.Site

/-!
# Extraction from a script's tree

One walk over the sites of a module collects its imports (declarations, `require` calls and
`import()` expressions), its functions and classes with their export status, and the calls whose
callee is bound by a module-level import. Such a call is charged to the nearest enclosing function,
or to a `(module)` record for code outside of functions.
-/

namespace CodeAtlas.Script

structure Entry where
  record : FunctionRecord
  /-- The number of the declaration; the `(module)` record has none. -/
  site : Option Nat := none
  /-- The part of the id that repeated names share. -/
  localId : Option String := none
  /-- The id of the class whose method this is. -/
  ownerId : Option String := none
  /-- The name by which an export clause finds it. -/
  topName : Option String := none

structure Walk where
  path : String
  imports : List ImportBinding := []
  entries : List Entry := []
  calls : List CallSite := []
  /-- Names bound by module-level imports; the first binding of a name stays. -/
  bound : List (Specifier × ImportBinding) := []
  /-- Local and exported names that wait for all records to be known. -/
  pendingExports : List (String × String) := []
  anonymous : Nat := 0

def moduleRecordName : String := "(module)"

namespace Walk

/-! ## Imports and exports -/

def boundImport? (w : Walk) (name : String) : Option (Specifier × ImportBinding) :=
  w.bound.find? (·.1.localName == name)

def addBinding (w : Walk) (b : ImportBinding) (moduleLevel : Bool) : Walk :=
  let b := { b with moduleLevel }
  { w with
    imports := w.imports ++ [b]
    bound := if moduleLevel then w.bound ++ b.specifiers.map (·, b) else w.bound }

def clauseSpecifiers (part : Tree) : List Specifier :=
  match part.kind with
  | .identifier => [⟨part.text, "default", .defaultExport, none⟩]
  | .namespaceImport =>
    ((part.firstOfKind? .identifier).map fun t => ⟨t.text, "*", .wholeModule, none⟩).toList
  | .namedImports =>
    (part.children.filter (·.kind == .importSpecifier)).filterMap fun spec => do
      let name ← spec.child? .name
      let imported := name.spelledName
      let localName := ((spec.child? .aliasName).map (·.text)).getD imported
      return ⟨localName, imported, .named, none⟩
  | _ => []

def importSpecifiers (t : Tree) : List Specifier :=
  (t.children.filter (·.kind == .importClause)).flatMap (·.children.flatMap clauseSpecifiers)

def bindImport (w : Walk) (t : Tree) (moduleLevel : Bool) : Walk :=
  let source := ((t.child? .source).bind (·.stringValue?)).getD ""
  w.addBinding { source, specifiers := importSpecifiers t } moduleLevel

def exportPairs (clause : Tree) : List (String × String) :=
  (clause.children.filter (·.kind == .exportSpecifier)).filterMap fun spec => do
    let name ← spec.child? .name
    return (name.spelledName, ((spec.child? .aliasName).map (·.spelledName)).getD name.spelledName)

def reexportSpecifiers (t : Tree) : List Specifier :=
  let named := t.children.flatMap fun child =>
    match child.kind with
    | .exportClause => (exportPairs child).map fun (name, aliasName) => ⟨aliasName, name, .named, none⟩
    | .namespaceExport =>
      ((child.firstOfKind? .identifier).map fun n => ⟨n.text, "*", .wholeModule, none⟩).toList
    | _ => []
  if named.isEmpty && t.hasToken "*" then [⟨"*", "*", .wholeModule, none⟩] else named

def requestedExports (t : Tree) : List (String × String) :=
  let listed := (t.children.filter (·.kind == .exportClause)).flatMap exportPairs
  let default := match t.child? .value with
    | some v => if t.hasToken "default" && v.kind == .identifier then [(v.text, "default")] else []
    | none => []
  listed ++ default

def visitExport (w : Walk) (t : Tree) : Walk :=
  match t.child? .source with
  | some source =>
    let binding : ImportBinding :=
      { source := source.stringValue?.getD "", specifiers := reexportSpecifiers t, reexport := true }
    { w with imports := w.imports ++ [binding] }
  | none => { w with pendingExports := w.pendingExports ++ requestedExports t }

/-! ## Records -/

def uniqueId (w : Walk) (localId : String) : String :=
  let count := w.entries.countP (·.localId == some localId)
  let mark := if count == 0 then "" else s!"#{count + 1}"
  s!"{w.path}::{localId}{mark}"

def entryAt? (w : Walk) (index : Nat) : Option Entry :=
  w.entries.find? (·.site == some index)

def recordKind (k : Kind) : RecordKind :=
  if k.isClass then .classLike
  else match k with
    | .arrowFunction => .arrow
    | .methodDefinition => .method
    | _ => .function

/-- The name shown for a declaration, and the count of names made up so far. -/
def displayName (w : Walk) (name exportedAs : Option String) : String × Nat :=
  match name with
  | some n => (n, w.anonymous)
  | none =>
    if exportedAs == some "default" then ("default", w.anonymous)
    else (s!"anonymous_{w.anonymous}", w.anonymous + 1)

def localIdOf (display : String) (exportedAs : Option String)
    (owner : Option (Option String × Nat)) : String :=
  let plain := match exportedAs with
    | some e => if e.isEmpty then display else e
    | none => display
  match owner with
  | some (some className, _) => if className.isEmpty then plain else s!"{className}.{display}"
  | _ => plain

/-- A method of an exported class that has a name is exported with it. -/
def exportWithClass (r : FunctionRecord) (className : Option String) (owner : FunctionRecord) :
    FunctionRecord :=
  match className with
  | some c =>
    if owner.exported && !c.isEmpty then
      { r with exportedAs := some s!"{c}.{r.displayName}", included := true }
    else r
  | none => r

def register (w : Walk) (s : Site) : Walk :=
  let name := s.inferredName?
  let exportedAs := s.exportName? name
  let owner := s.owningClass?
  let (display, anonymous) := w.displayName name exportedAs
  let localId := localIdOf display exportedAs owner
  let plain : FunctionRecord :=
    { id := w.uniqueId localId, displayName := display, filePath := w.path
      kind := recordKind s.kind, span := some s.tree.span }
  let record := match exportedAs with
    | some e => plain.markExported e
    | none => plain
  let entry : Entry := match owner with
    | some (className, index) =>
      match w.entryAt? index with
      | some classEntry =>
        { record := exportWithClass record className classEntry.record, site := some s.index
          localId := some localId, ownerId := some classEntry.record.id }
      | none => { record, site := some s.index, localId := some localId }
    | none =>
      { record, site := some s.index, localId := some localId
        topName := if s.isTopLevel then name else none }
  { w with entries := w.entries ++ [entry], anonymous }

/-! ## Calls -/

/-- The `(module)` record, made when it is first needed. -/
def withModuleEntry (w : Walk) : Walk :=
  if w.entries.any (·.site.isNone) then w
  else
    let record : FunctionRecord :=
      { id := s!"{w.path}::{moduleRecordName}", displayName := moduleRecordName
        filePath := w.path, kind := .module, included := true }
    { w with entries := w.entries ++ [{ record }] }

/-- Shows the record with the number and names it as the caller. -/
def charge (w : Walk) (site : Option Nat) : Walk × String :=
  match w.entries.find? (·.site == site) with
  | some e =>
    ({ w with entries := w.entries.map fun e =>
        if e.site == site then { e with record := { e.record with included := true } } else e },
      e.record.id)
  | none => (w, "")

def addCall (w : Walk) (s : Site) (spec : Specifier) (binding : ImportBinding) : Walk :=
  let site := s.enclosingFunction?
  let w := if site.isNone then w.withModuleEntry else w
  let (w, caller) := w.charge site
  { w with calls := w.calls ++
      [{ caller, localName := spec.localName, importedName := some spec.importedName
         source := some binding.source }] }

def requiredNames (s : Site) : List Specifier :=
  match s.parent? with
  | some parent =>
    if parent.kind == .variableDeclarator then
      match parent.child? .name with
      | some target =>
        match target.kind with
        | .identifier => [⟨target.text, "default", .defaultExport, none⟩]
        | .objectPattern => target.children.filterMap fun prop =>
          match prop.kind with
          | .shorthandPattern => some ⟨prop.text, prop.text, .named, none⟩
          | .pairPattern => do
            let key ← prop.child? .key
            let value ← prop.child? .value
            if value.kind == .identifier then some ⟨value.text, key.text, .named, none⟩ else none
          | .objectAssignmentPattern => do
            let left ← prop.child? .left
            return ⟨left.text, left.text, .named, none⟩
          | _ => none
        | _ => []
      | none => []
    else []
  | none => []

def visitRequire (w : Walk) (s : Site) : Walk :=
  match s.tree.firstStringArgument? with
  | some source =>
    w.addBinding { source, kind := .require, specifiers := requiredNames s } s.inModuleDeclarator
  | none => w

def visitNamedCall (w : Walk) (s : Site) (name : String) : Walk :=
  if name == "require" && !s.locallyBound name then w.visitRequire s
  else match w.boundImport? name with
    | some (spec, binding) =>
      if s.locallyBound name || spec.binding == .wholeModule then w else w.addCall s spec binding
    | none => w

def visitCall (w : Walk) (s : Site) : Walk :=
  match s.tree.child? .callee with
  | some callee =>
    match callee.kind with
    | .importWord =>
      match s.tree.firstStringArgument? with
      | some source => w.addBinding { source, kind := .dynamic } false
      | none => w
    | .identifier => w.visitNamedCall s callee.text
    | _ => w
  | none => w

/-! ## The walk -/

def visit (w : Walk) (s : Site) : Walk :=
  match s.kind with
  | .importStatement => if s.parentIs .program then w else w.bindImport s.tree false
  | .exportStatement => w.visitExport s.tree
  | .callExpression => w.visitCall s
  | k => if k.isFunction || k.isClass then w.register s else w

/-- Import declarations of the program hold in all of it, so they are bound before anything is
visited. -/
def start (path : String) (root : Tree) : Walk :=
  (root.children.filter (·.kind == .importStatement)).foldl
    (fun w t => w.bindImport t (root.kind == .program)) { path }

/-! ## Exports by name -/

/-- Exports the record found under a top-level name, and the methods with it when it is a class. -/
def exportEntry (w : Walk) (target : Entry) (exported : String) : Walk :=
  let methodOf (e : Entry) := e.ownerId == some target.record.id
  { w with entries := w.entries.map fun e =>
      if e.site == target.site then { e with record := e.record.markExported exported }
      else if methodOf e then
        { e with record :=
          { e.record with
            exportedAs := some (e.record.exportedAs.getD
              s!"{target.record.displayName}.{e.record.displayName}")
            included := true } }
      else e }

/-- An exported name is a top-level record's, or else passes on an import. -/
def resolveExport (w : Walk) (request : String × String) : Walk :=
  let (localName, exported) := request
  match w.entries.find? (·.topName == some localName) with
  | some target => w.exportEntry target exported
  | none =>
    match w.boundImport? localName with
    | some (spec, binding) =>
      if spec.binding == .wholeModule then w
      else
        { w with imports := w.imports ++
            [{ source := binding.source, kind := binding.kind
               specifiers := [⟨exported, spec.importedName, .named, none⟩], reexport := true }] }
    | none => w

def finish (w : Walk) : Walk :=
  w.pendingExports.foldl resolveExport w

end Walk

def walkModule (path : String) (root : Tree) : Walk :=
  (root.sites.foldl Walk.visit (Walk.start path root)).finish

end CodeAtlas.Script
