import CodeAtlas.Analyze
import CodeAtlas.Proofs.Enrichment
import CodeAtlas.Proofs.Walk

/-!
# Reports of whole runs

Both graphs of every report are well-formed, whatever a model does (`run_report_wellFormed`). A run
that asks a model extends the run that does not (`enriched_run_extends`).
-/

namespace CodeAtlas

/-! ## Paths of analyses -/

theorem Catalog.readScript_path {c : Catalog} {d : Script.Dialect} {path content : String} {a : FileAnalysis}
    (h : c.readScript d path content = .analysed a) : a.path = path := by
  unfold readScript at h
  split at h
  · rename_i b hb
    cases h
    obtain ⟨root, -, rfl⟩ := Option.map_eq_some_iff.mp hb
    exact Script.Walk.walkModule_path path root
  · cases h

theorem Catalog.read_path {c : Catalog} {path content : String} {a : FileAnalysis}
    (h : c.read path content = .analysed a) : a.path = path := by
  unfold read at h
  split at h
  · split at h
    · exact readScript_path h
    · cases h
  · split at h
    · split at h
      · cases h
      · cases h; rfl
    · cases h
  · cases h

namespace AnalysisPlan

theorem analyses_paths_sublist (p : AnalysisPlan) (targets : FileMap) :
    ((analyses (p.readings targets)).map (·.path)).Sublist (targets.map (·.1)) := by
  induction targets with
  | nil => exact .slnil
  | cons f targets ih =>
    have hcons : p.readings (f :: targets) = (f.1, p.catalog.read f.1 f.2) :: p.readings targets := rfl
    rw [hcons, analyses, List.filterMap_cons]
    cases hread : p.catalog.read f.1 f.2 with
    | analysed a =>
      rw [List.map_cons, List.map_cons, Catalog.read_path hread]
      exact ih.cons_cons _
    | unsupported => exact ih.cons _
    | syntaxError outline => exact ih.cons _

theorem targets_nodup (p : AnalysisPlan) {files : FileMap} (h : files.paths.Nodup) :
    ((p.targets files).map (·.1)).Nodup := by
  have hsorted : ((Fingerprint.byName files).map (·.1)).Nodup :=
    ((List.mergeSort_perm files _).map _).nodup_iff.mpr h
  exact hsorted.sublist (((List.take_sublist _ _).trans List.filter_sublist).map _)

theorem analyses_paths_nodup (p : AnalysisPlan) {files : FileMap} (h : files.paths.Nodup) :
    ((analyses (p.readings (p.targets files))).map (·.path)).Nodup :=
  (p.targets_nodup h).sublist (p.analyses_paths_sublist _)

theorem enrichment_writes (p : AnalysisPlan) (a : Assembly) :
    ∃ fs cs, a.Writable fs cs ∧ (p.enrichment a).assembly = a.withEdges fs cs := by
  unfold enrichment
  split
  · exact a.enrich_writes p.settings p.model
  · exact ⟨[], [], .nil a, rfl⟩

end AnalysisPlan

/-! ## Well-formed reports -/

/-- Edges end at nodes of their graph, and nothing is there twice. -/
structure Report.WellFormed (r : Report) : Prop where
  fileEnds : ∀ e ∈ r.files.edges, e.Within (r.files.idsOfKind "file")
  functionEnds : ∀ e ∈ r.functions.edges, e.Within r.functions.functionIds
  fileKeys : (r.files.edges.map Edge.key).Nodup
  functionKeys : (r.functions.edges.map Edge.key).Nodup
  functionIds : r.functions.functionIds.Nodup
  fileIds : (r.files.idsOfKind "file").Nodup
  directoryIds : (r.files.idsOfKind "directory").Nodup

/-- In every report, edges end at nodes of the right kind, and ids and edges are distinct. -/
theorem AnalysisPlan.run_report_wellFormed (p : AnalysisPlan) (files : FileMap)
    (hfiles : files.paths.Nodup) : (p.run files).report.WellFormed := by
  let a := p.assembly files (p.readings (p.targets files))
  obtain ⟨fs, cs, hwritable, hassembly⟩ := p.enrichment_writes a
  have hlinked : (a.withEdges fs cs).Linked :=
    (Assembly.ofAnalyses_linked ..).withEdges (Assembly.shownFiles_eq ..) hwritable
  have hfileGraph : (p.run files).report.files = (a.withEdges fs cs).fileGraph :=
    congrArg Assembly.fileGraph hassembly
  have hfunctionGraph : (p.run files).report.functions = (a.withEdges fs cs).functionGraph :=
    congrArg Assembly.functionGraph hassembly
  constructor
  · rw [hfileGraph]
    exact hlinked.fileEnds
  · rw [hfunctionGraph]
    exact hlinked.functionEnds
  · rw [hfileGraph]
    exact hlinked.fileKeys
  · rw [hfunctionGraph]
    exact hlinked.functionKeys
  · rw [hfunctionGraph, Assembly.withEdges_functionIds]
    exact Assembly.functionIds_nodup ..
  · rw [hfileGraph, Assembly.withEdges_idsOfKind]
    exact Assembly.fileIds_nodup _ _ _ _ (p.analyses_paths_nodup hfiles)
  · rw [hfileGraph, Assembly.withEdges_idsOfKind]
    exact Assembly.directoryIds_nodup ..

theorem run_report_wellFormed_of_reply :
    (FileMap.paths [("a.ts", "import t from './b';\nt();\n"), ("b.ts", "export default class T {}"),
      ("lib/c.py", "import b\n")]).Nodup ∧
    (AnalysisPlan.run { model := .direct fun _ => .ok (.str r#"{"fileEdges": []}"#), maxFiles := some 2 }
      [("a.ts", "import t from './b';\nt();\n"), ("b.ts", "export default class T {}"),
        ("lib/c.py", "import b\n")]).report.WellFormed :=
  ⟨by decide, AnalysisPlan.run_report_wellFormed _ _ (by decide)⟩

/-! ## Runs with and without a model -/

/-- The report `on` says what `off` says and more: edges that are proposed, and a block of warnings
in front of those about unresolved imports. -/
structure Report.Enriches (unresolved block : List String) (off on : Report) : Prop where
  fileNodes : on.files.nodes = off.files.nodes
  functionNodes : on.functions.nodes = off.functions.nodes
  stats : on.stats = off.stats
  fileEdges : Extends (Edge.Proposed (off.files.idsOfKind "file")) off.files.edges on.files.edges
  functionEdges :
    Extends (Edge.Proposed off.functions.functionIds) off.functions.edges on.functions.edges
  warnings : ∃ before, off.warnings = before ++ unresolved ∧
    on.warnings = before ++ block ++ unresolved

namespace AnalysisPlan

theorem enrichmentWarnings_of_failedWith {a : Assembly} {f : Failure} {e : Enrichment}
    (h : Enrichment.FailedWith a f e) : enrichmentWarnings e = [Enrichment.failureWarning f] := by
  unfold enrichmentWarnings
  rcases h.warnings with hw | hw <;> rw [hw]

theorem reportOf_enriches (readings : List (String × Reading)) {a : Assembly} {e : Enrichment}
    (hfiles : a.shownFiles = a.fileGraph.idsOfKind "file") {fs cs : List Edge} (hw : a.Writable fs cs)
    (he : e.assembly = a.withEdges fs cs) :
    Report.Enriches a.warnings (enrichmentWarnings e) (reportOf readings (Enrichment.idle a []))
      (reportOf readings e) := by
  have hfileEdges := EdgeStore.upsertAll_extends Edge.Proposed.of_completes fs a.fileEdges hw.files
  have hfunctionEdges :=
    EdgeStore.upsertAll_extends Edge.Proposed.of_completes cs a.functionEdges hw.functions
  rw [hfiles] at hfileEdges
  refine ⟨?_, ?_, ?_, ?_, ?_, readingWarnings readings, ?_, ?_⟩
  · simp only [reportOf, he]; rfl
  · simp only [reportOf, he]; rfl
  · simp only [reportOf, he]; rfl
  · simp only [reportOf, he]; exact hfileEdges
  · simp only [reportOf, he]; exact hfunctionEdges
  · simp [reportOf, enrichmentWarnings, Enrichment.idle]
  · simp only [reportOf, he]; rfl

end AnalysisPlan

/-- A run that asks a model has the nodes and counts of the run that does not, its edges in the same
places, and otherwise only proposed edges and one block of warnings. If the model fails, the block is
one warning and the graphs are the same. -/
theorem AnalysisPlan.enriched_run_extends (p : AnalysisPlan) (files : FileMap) :
    let a := p.assembly files (p.readings (p.targets files))
    let off := (AnalysisPlan.run { p with enriched := false } files).report
    let on := (AnalysisPlan.run { p with enriched := true } files).report
    ∃ block, Report.Enriches a.warnings block off on ∧
      ∀ f, p.settings.minModelFiles ≤ a.analyses.length → p.model.Fails p.settings a.analyses f →
        on.files = off.files ∧ on.functions = off.functions ∧
          block = [Enrichment.failureWarning f] := by
  intro a off on
  obtain ⟨fs, cs, hw, he⟩ := a.enrich_writes p.settings p.model
  have hoff : off = reportOf (p.readings (p.targets files)) (Enrichment.idle a []) := rfl
  have hon : on = reportOf (p.readings (p.targets files)) (a.enrich p.settings p.model) := rfl
  refine ⟨enrichmentWarnings (a.enrich p.settings p.model), ?_, ?_⟩
  · rw [hoff, hon]
    exact reportOf_enriches _ (Assembly.shownFiles_eq ..) hw he
  · intro f hmin hfails
    have hfailed := Assembly.enrich_of_fails hmin hfails
    refine ⟨?_, ?_, enrichmentWarnings_of_failedWith hfailed⟩
    · rw [hoff, hon]
      exact congrArg Assembly.fileGraph hfailed.assembly
    · rw [hoff, hon]
      exact congrArg Assembly.functionGraph hfailed.assembly

/-- One file imports the other, and no model can be asked. -/
theorem enriched_run_of_unknown_provider :
    let p : AnalysisPlan :=
      { model := .network fun _ => .timedOut
        settings := { provider := "nowhere", apiKey := .text "key", minModelFiles := 0 } }
    let files : FileMap := [("a.py", "import b\n"), ("b.py", "def f():\n    pass\n")]
    let off := (AnalysisPlan.run { p with enriched := false } files).report
    let on := (AnalysisPlan.run { p with enriched := true } files).report
    off.files.edges.map (·.key) = [edgeKey "a.py" "b.py"] ∧
      on.files = off.files ∧ on.functions = off.functions := by
  intro p files off on
  have htargets : p.targets files = files := by
    rw [AnalysisPlan.targets, show Fingerprint.byName files = files from List.mergeSort_of_pairwise (by decide)]
    decide +kernel
  refine ⟨?_, ?_⟩
  · show (p.assembly files (p.readings (p.targets files))).fileEdges.edges.map (·.key) = _
    rw [htargets]
    decide +kernel
  · obtain ⟨block, -, hfails⟩ := AnalysisPlan.enriched_run_extends p files
    have hname : Service.ofName? (Text.lower "nowhere") = none := by decide +kernel
    have hunknown : Provider.ofSettings p.settings = .error (.unknownProvider "nowhere") := by
      simp only [Provider.ofSettings, p, hname]
    obtain ⟨hfiles, hfunctions, -⟩ := hfails _ (Int.natCast_nonneg _) (.unknown (by decide) hunknown)
    exact ⟨hfiles, hfunctions⟩

end CodeAtlas
