import CodeAtlas.Cache.Basic
import CodeAtlas.Cache.Fingerprint
import CodeAtlas.Catalog
import CodeAtlas.FileMap
import CodeAtlas.Inference.Enrich
import CodeAtlas.Progress

/-!
# Analysing a repository

The files that a language is known for are read in the order of their paths, their graphs are
assembled and, if wanted, enriched. What goes wrong on the way is a warning in the report.
-/

namespace CodeAtlas

structure AnalysisPlan where
  catalog : Catalog := .builtin
  aliases : List Alias := []
  /-- How many files are read; the settings say so if nothing else does. -/
  maxFiles : Option Int := none
  /-- Whether a language model is asked. -/
  enriched : Bool := true
  rootLabel : String := "."
  settings : Settings := {}
  model : Model
  /-- How many digits an integer may have where it is written. -/
  maxDigits : Option Nat := Json.standard.digits
  /-- The time when the first, second, ... file is done. -/
  clock : Nat → Seconds := fun _ => 0

structure AnalysisRun where
  report : Report
  events : List Progress
  asked : Option Asked := none

namespace AnalysisPlan

def limit (p : AnalysisPlan) : Int :=
  p.maxFiles.getD p.settings.maxFiles

def targets (p : AnalysisPlan) (files : FileMap) : FileMap :=
  ((Fingerprint.byName files).filter fun f => (p.catalog.detect f.1).supported).take p.limit.toNat

def readings (p : AnalysisPlan) (targets : FileMap) : List (String × Reading) :=
  targets.map fun (path, text) => (path, p.catalog.read path text)

def analyses (readings : List (String × Reading)) : List FileAnalysis :=
  readings.filterMap fun
    | (_, .analysed a) => some a
    | _ => none

def noFilesWarning : String :=
  "No supported source files were parsed. File graph includes nodes without edges."

def readingWarnings (readings : List (String × Reading)) : List String :=
  (readings.filterMap fun
    | (path, .syntaxError outline) => some s!"Failed to analyze {path}: {outline.report}"
    | _ => none)
  ++ if (analyses readings).isEmpty then [noFilesWarning] else []

def assembly (p : AnalysisPlan) (files : FileMap) (readings : List (String × Reading)) : Assembly :=
  Assembly.ofAnalyses (analyses readings) ⟨files.paths, p.aliases⟩ (readings.map (·.1)) p.rootLabel

def enrichment (p : AnalysisPlan) (a : Assembly) : Enrichment :=
  if p.enriched then a.enrich p.settings p.model else Enrichment.idle a []

/-- A failure that enrichment does not answer for itself becomes a warning here. -/
def enrichmentWarnings (e : Enrichment) : List String :=
  match e.warnings with
  | .ok warnings => warnings
  | .error f => [Enrichment.failureWarning f]

def reportOf (readings : List (String × Reading)) (e : Enrichment) : Report :=
  let files := e.assembly.fileGraph
  let functions := e.assembly.functionGraph
  { files, functions
    warnings := readingWarnings readings ++ enrichmentWarnings e ++ e.assembly.warnings
    stats :=
      { files := (analyses readings).length
        directories := (files.nodes.filter (·.kind == "directory")).length
        functions := functions.nodes.length } }

def eventsFor (p : AnalysisPlan) (count : Nat) : List Progress :=
  let total : Int := count
  ⟨s!"Analyzing {count} files", some 0, some total⟩
    :: ((Throttle.fileEvents { total } ((List.range count).map p.clock)).filterMap id
      ++ (if p.enriched then [⟨"Inferring relationships with LLM", none, none⟩] else [])
      ++ [⟨"Analysis complete", some total, some total⟩])

def run (p : AnalysisPlan) (files : FileMap) : AnalysisRun :=
  let readings := p.readings (p.targets files)
  let e := p.enrichment (p.assembly files readings)
  { report := reportOf readings e
    events := p.eventsFor readings.length
    asked := e.asked }

/-! ## With a cache -/

def cacheKey (p : AnalysisPlan) (files : FileMap) : Except Json.WriteError String :=
  Fingerprint.fingerprint p.maxDigits files p.aliases
    [("max_files", .int p.limit), ("llm_enabled", .bool p.enriched)]

inductive CacheFailure where
  | key (e : Json.WriteError)
  | store (e : Cache.Fault)
deriving DecidableEq, Repr

/-- Takes the report from a cache, or makes it and puts it there; the clock is read for both. The run,
if one was made, and the cache are there whether or not the report could be stored. -/
def runCached (p : AnalysisPlan) (files : FileMap) (cache : Cache Report) (asked stored : Seconds) :
    Except CacheFailure Report × Option AnalysisRun × Cache Report :=
  match p.cacheKey files with
  | .error e => (.error (.key e), none, cache)
  | .ok key =>
    match cache.get asked key with
    | (some report, cache) => (.ok report, none, cache)
    | (none, cache) =>
      let run := p.run files
      match cache.put stored key run.report with
      | (.ok _, cache) => (.ok run.report, some run, cache)
      | (.error e, cache) => (.error (.store e), some run, cache)

end AnalysisPlan

end CodeAtlas
