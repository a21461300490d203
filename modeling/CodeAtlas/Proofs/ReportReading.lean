import CodeAtlas.Graph.Document
import CodeAtlas.Proofs.JsonWriting

/-!
# Reports read from their texts

The text of a report is read as the value that it was written from, and the value gives the report
again: a field that was left out had no value.
-/

namespace CodeAtlas

/-! ## Records read from values -/

namespace Json

def field? {α : Type} (of? : Json → Option α) (j : Json) (key : String) : Option α :=
  (j.get? key).bind of?

/-- A field that need not be there; a value that is there must be one that can be read. -/
def optional? {α : Type} (of? : Json → Option α) (j : Json) (key : String) : Option (Option α) :=
  match j.get? key with
  | none => some none
  | some v => (of? v).map some

def list? {α : Type} (of? : Json → Option α) (j : Json) : Option (List α) :=
  j.arr?.bind (·.mapM of?)

theorem list?_map {α : Type} {of? : Json → Option α} {toJson : α → Json}
    (h : ∀ a, of? (toJson a) = some a) (as : List α) :
    list? of? (.arr (as.map toJson)) = some as := by
  induction as with
  | nil => rfl
  | cons a as ih =>
    have htail : (as.map toJson).mapM of? = some as := ih
    rw [list?, arr?, Option.bind_some, List.map_cons, List.mapM_cons, h, htail]
    rfl

end Json

open Json

def Position.ofJson? (j : Json) : Option Position := do
  return { line := ← field? int? j "line", column := ← field? int? j "column" }

def Span.ofJson? (j : Json) : Option Span := do
  return { start := ← field? Position.ofJson? j "start", stop := ← field? Position.ofJson? j "end" }

def FileNode.ofJson? (j : Json) : Option FileNode := do
  return {
    id := ← field? str? j "id"
    label := ← field? str? j "label"
    path := ← field? str? j "path"
    kind := ← field? str? j "kind" }

def FunctionNode.ofJson? (j : Json) : Option FunctionNode := do
  return {
    id := ← field? str? j "id"
    label := ← field? str? j "label"
    filePath := ← field? str? j "file_path"
    kind := ← field? str? j "kind"
    exportedAs := ← optional? str? j "exported_as"
    span := ← optional? Span.ofJson? j "source_span" }

/-- The id is not read: the endpoints tell it. -/
def Edge.ofJson? (j : Json) : Option Edge := do
  return {
    source := ← field? str? j "source"
    target := ← field? str? j "target"
    kind := ← field? str? j "kind"
    provenance := ← field? (fun v => v.str?.bind Provenance.ofName?) j "provenance"
    confidence := ← optional? (fun v => v.str?.bind Confidence.ofName?) j "confidence"
    reason := ← optional? str? j "reason" }

def Graph.ofJson? {ν : Type} (node? : Json → Option ν) (j : Json) : Option (Graph ν) := do
  return {
    nodes := ← field? (list? node?) j "nodes"
    edges := ← field? (list? Edge.ofJson?) j "edges" }

def Stats.ofJson? (j : Json) : Option Stats := do
  return {
    files := ← field? int? j "file_count"
    directories := ← field? int? j "directory_count"
    functions := ← field? int? j "function_count"
    durationMs := ← field? int? j "duration_ms" }

def Report.ofJson? (j : Json) : Option Report := do
  return {
    files := ← field? (Graph.ofJson? FileNode.ofJson?) j "file_graph"
    functions := ← field? (Graph.ofJson? FunctionNode.ofJson?) j "function_graph"
    warnings := ← field? (list? str?) j "warnings"
    stats := ← field? Stats.ofJson? j "stats" }

theorem FileNode.ofJson?_toJson (n : FileNode) : FileNode.ofJson? n.toJson = some n :=
  rfl

theorem FunctionNode.ofJson?_toJson (n : FunctionNode) :
    FunctionNode.ofJson? n.toJson = some n := by
  obtain ⟨id, label, filePath, kind, exportedAs, span⟩ := n
  cases exportedAs <;> cases span <;> rfl

theorem Edge.ofJson?_toJson (e : Edge) : Edge.ofJson? e.toJson = some e := by
  obtain ⟨source, target, kind, provenance, confidence, reason⟩ := e
  cases provenance <;> cases reason <;> cases confidence with
    | none => rfl
    | some c => cases c <;> rfl

theorem Stats.ofJson?_toJson (s : Stats) : Stats.ofJson? s.toJson = some s :=
  rfl

theorem Graph.ofJson?_toJson {ν : Type} {node? : Json → Option ν} {node : ν → Json}
    (h : ∀ n, node? (node n) = some n) (g : Graph ν) :
    Graph.ofJson? node? (g.toJson node) = some g := by
  have hnodes : field? (list? node?) (g.toJson node) "nodes" = some g.nodes :=
    list?_map h g.nodes
  have hedges : field? (list? Edge.ofJson?) (g.toJson node) "edges" = some g.edges :=
    list?_map Edge.ofJson?_toJson g.edges
  rw [Graph.ofJson?, hnodes, hedges]
  rfl

theorem Report.ofJson?_toJson (r : Report) : Report.ofJson? r.toJson = some r := by
  have hfiles : field? (Graph.ofJson? FileNode.ofJson?) r.toJson "file_graph" = some r.files :=
    Graph.ofJson?_toJson FileNode.ofJson?_toJson r.files
  have hfunctions : field? (Graph.ofJson? FunctionNode.ofJson?) r.toJson "function_graph"
      = some r.functions :=
    Graph.ofJson?_toJson FunctionNode.ofJson?_toJson r.functions
  have hstr (s : String) : str? (.str s) = some s := rfl
  have hwarnings : field? (list? str?) r.toJson "warnings" = some r.warnings :=
    list?_map hstr r.warnings
  have hstats : field? Stats.ofJson? r.toJson "stats" = some r.stats :=
    Stats.ofJson?_toJson r.stats
  rw [Report.ofJson?, hfiles, hfunctions, hwarnings, hstats]
  rfl

/-! ## Values of records -/

theorem Span.toJson_nests (depth : Nat) (s : Span) : Nests (depth + 2) s.toJson := by
  simp [Span.toJson, Position.toJson]

theorem FileNode.toJson_nests (depth : Nat) (n : FileNode) : Nests (depth + 1) n.toJson := by
  simp [FileNode.toJson]

theorem FunctionNode.toJson_nests (depth : Nat) (n : FunctionNode) :
    Nests (depth + 3) n.toJson := by
  obtain ⟨id, label, filePath, kind, exportedAs, span⟩ := n
  cases exportedAs <;> cases span <;>
    simp [FunctionNode.toJson, member?, Span.toJson_nests]

theorem Edge.toJson_nests (depth : Nat) (e : Edge) : Nests (depth + 1) e.toJson := by
  obtain ⟨source, target, kind, provenance, confidence, reason⟩ := e
  cases confidence <;> cases reason <;> simp [Edge.toJson, member?]

theorem Graph.toJson_nests {ν : Type} {node : ν → Json} {depth : Nat}
    (h : ∀ n, Nests (depth + 1) (node n)) (g : Graph ν) : Nests (depth + 3) (g.toJson node) := by
  simp [Graph.toJson, h, Edge.toJson_nests]

theorem Stats.toJson_nests (depth : Nat) (s : Stats) : Nests (depth + 1) s.toJson := by
  simp [Stats.toJson]

theorem Report.toJson_nests (r : Report) : Nests 6 r.toJson := by
  have hfiles : Nests 5 (r.files.toJson FileNode.toJson) :=
    Graph.toJson_nests (FileNode.toJson_nests 2) r.files
  have hfunctions : Nests 5 (r.functions.toJson FunctionNode.toJson) :=
    Graph.toJson_nests (FunctionNode.toJson_nests 0) r.functions
  have hwarnings : Nests 5 (.ofStrings r.warnings) := by simp [Json.ofStrings]
  have hstats : Nests 5 r.stats.toJson := Stats.toJson_nests 4 r.stats
  refine nests_obj.2 ⟨by simp, ?_⟩
  simp [hfiles, hfunctions, hwarnings, hstats]

/-! ## Texts of reports -/

/-- One bound on the digits of integers holds for writing and for reading. A report is written unless
an integer in it is too long. What is written is read as the value it was written from; the value gives
the report again, so no other report has the text. -/
theorem Report.read_jsonText (limits : Limits) (hdepth : 6 ≤ limits.depth) (r : Report) (indent : Nat) :
    ((∃ text, r.jsonText limits.digits indent = .ok text) ↔ Admits limits.digits r.toJson.width)
      ∧ (∀ text, r.jsonText limits.digits indent = .ok text → readWithin limits text = .ok r.toJson)
      ∧ Report.ofJson? r.toJson = some r
      ∧ ∀ (r' : Report) (indent' : Nat) (text : String), r.jsonText limits.digits indent = .ok text →
        r'.jsonText limits.digits indent' = .ok text → r' = r := by
  have hread (r : Report) (indent : Nat) (text : String)
      (h : r.jsonText limits.digits indent = .ok text) : readWithin limits text = .ok r.toJson := by
    obtain ⟨hadmits, rfl⟩ := writeWithin_eq_ok_iff.1 h
    exact (readWithin_write r.toJson_nests indent hdepth).2 hadmits
  refine ⟨?_, hread r indent, r.ofJson?_toJson, ?_⟩
  · constructor
    · rintro ⟨text, h⟩
      exact (writeWithin_eq_ok_iff.1 h).1
    · intro hadmits
      exact ⟨_, writeWithin_eq_ok_iff.2 ⟨hadmits, rfl⟩⟩
  · intro r' indent' text h h'
    have hvalue : r'.toJson = r.toJson := by
      have hsame := (hread r' indent' text h').symm.trans (hread r indent text h)
      exact Except.ok.inj hsame
    apply Option.some.inj
    rw [← r'.ofJson?_toJson, hvalue, r.ofJson?_toJson]

def reportOfLine (line : Int) : Report where
  files := ⟨[{ id := "a.ts", label := "a.ts", path := "a.ts" }],
    [{ source := "a.ts", target := "b.ts", kind := "uses", provenance := .llm, reason := some "\"" }]⟩
  functions := ⟨[⟨"a.ts::f", "f", "a.ts", "function", none, some ⟨⟨line, 0⟩, ⟨line, 16⟩⟩⟩], []⟩
  warnings := ["é"]

/-- With two digits at most, line 10 is written and line 100 is not. -/
theorem read_jsonText_of_line :
    (∃ text, (reportOfLine 10).jsonText (some 2) 0 = .ok text
      ∧ readWithin ⟨6, some 2⟩ text = .ok (reportOfLine 10).toJson)
    ∧ ¬ ∃ text, (reportOfLine 100).jsonText (some 2) 2 = .ok text := by
  obtain ⟨hwritten, hread, -⟩ := Report.read_jsonText ⟨6, some 2⟩ (by decide) (reportOfLine 10) 0
  obtain ⟨hlong, -⟩ := Report.read_jsonText ⟨6, some 2⟩ (by decide) (reportOfLine 100) 2
  obtain ⟨text, htext⟩ := hwritten.2 (by decide +kernel)
  exact ⟨⟨text, htext, hread text htext⟩, fun h => absurd (hlong.1 h) (by decide +kernel)⟩

end CodeAtlas
