import CodeAtlas.Analyze
import CodeAtlas.Proofs.CallEdges

/-!
# The order of the files does not matter

A run reads the files in the order of their paths, and resolves specifiers by which paths are there. So
two lists of the same files, in whatever order, give the same run (`run_eq_of_perm`).
-/

namespace CodeAtlas

/-! ## Files by name -/

theorem byName_pairwise {α : Type} (entries : List (String × α)) :
    (Fingerprint.byName entries).Pairwise fun a b => a.1 ≤ b.1 :=
  List.pairwise_mergeSort' _ _

theorem byName_eq_of_perm {α : Type} {xs ys : List (String × α)} (h : xs.Perm ys)
    (hnames : (xs.map (·.1)).Nodup) : Fingerprint.byName xs = Fingerprint.byName ys := by
  have hxs : (Fingerprint.byName xs).Perm xs := List.mergeSort_perm xs _
  have hys : (Fingerprint.byName ys).Perm ys := List.mergeSort_perm ys _
  refine List.Perm.eq_of_pairwise ?_ (byName_pairwise xs) (byName_pairwise ys) (hxs.trans (h.trans hys.symm))
  intro a b ha hb hab hba
  -- Only one entry has the name.
  exact List.inj_on_of_nodup_map hnames (hxs.mem_iff.mp ha) (h.mem_iff.mpr (hys.mem_iff.mp hb))
    (String.le_antisymm hab hba)

/-! ## Known files -/

theorem Resolver.resolve_congr {known known' : List String} (h : ∀ path, path ∈ known ↔ path ∈ known')
    (aliases : List Alias) : Resolver.resolve ⟨known, aliases⟩ = Resolver.resolve ⟨known', aliases⟩ := by
  have hknown : known.contains = known'.contains := by
    funext path
    rw [Bool.eq_iff_iff, List.contains_iff_mem, List.contains_iff_mem, h path]
  have hprobe : Resolver.probe ⟨known, aliases⟩ = Resolver.probe ⟨known', aliases⟩ := by
    funext family base
    simp only [Resolver.probe, hknown]
  funext importer specifier
  simp only [Resolver.resolve, hprobe]

namespace Assembly

def SameTargets (r r' : Resolver) (analyses : List FileAnalysis) : Prop :=
  ∀ a ∈ analyses, ∀ b ∈ a.imports, r.resolve a.path b.source = r'.resolve a.path b.source

section
variable {r r' : Resolver} {analyses : List FileAnalysis} (h : SameTargets r r' analyses)
include h

theorem resolveImports_congr : analyses.map (resolveImports r) = analyses.map (resolveImports r') := by
  apply List.map_congr_left
  intro a ha
  have hbind : a.imports.map (bindTarget r a.path) = a.imports.map (bindTarget r' a.path) := by
    apply List.map_congr_left
    intro b hb
    simp only [bindTarget, importTarget_eq, h a ha b hb]
  rw [resolveImports, resolveImports, hbind]

theorem importEdges_congr : importEdges r analyses = importEdges r' analyses := by
  unfold importEdges
  apply List.flatMap_congr
  intro a ha
  apply List.filterMap_congr
  intro b hb
  simp only [importEdge?, importTarget_eq, h a ha b hb]

theorem unresolvedWarnings_congr : unresolvedWarnings r analyses = unresolvedWarnings r' analyses := by
  have hunresolved : unresolved r analyses = unresolved r' analyses := by
    funext path
    unfold unresolved
    congr 1
    apply List.flatMap_congr
    intro a ha
    apply List.filter_congr
    intro source hsource
    obtain ⟨b, hb, rfl⟩ := List.mem_map.mp hsource
    rw [h a (List.mem_of_mem_filter ha) b hb]
  rw [unresolvedWarnings, unresolvedWarnings, hunresolved]

/-- Assembly asks a resolver for the targets of imports and for nothing else. -/
theorem ofAnalyses_congr (scanned : List String) (label : String) :
    ofAnalyses analyses r scanned label = ofAnalyses analyses r' scanned label := by
  simp only [ofAnalyses, resolveImports_congr h, importEdges_congr h, unresolvedWarnings_congr h]

end

end Assembly

/-! ## Runs -/

namespace AnalysisPlan

theorem assembly_eq_of_perm (p : AnalysisPlan) {files files' : FileMap} (h : files.Perm files')
    (readings : List (String × Reading)) : p.assembly files readings =
      p.assembly files' readings := by
  have hpaths : ∀ path, path ∈ files.paths ↔ path ∈ files'.paths := fun path => (h.map _).mem_iff
  apply Assembly.ofAnalyses_congr
  intro a _ b _
  rw [Resolver.resolve_congr hpaths p.aliases]

/-- The same files in another order give the same run, and with a cache the same report from it and the
same cache after it. -/
theorem run_eq_of_perm (p : AnalysisPlan) {files files' : FileMap} (h : files.Perm files')
    (hfiles : files.paths.Nodup) : p.run files = p.run files' ∧
      ∀ cache asked stored,
        p.runCached files cache asked stored = p.runCached files' cache asked stored := by
  have hsorted : Fingerprint.byName files = Fingerprint.byName files' := byName_eq_of_perm h hfiles
  have hrun : p.run files = p.run files' := by
    have htargets : p.targets files = p.targets files' := by rw [targets, targets, hsorted]
    simp only [run, htargets, p.assembly_eq_of_perm h]
  have hkey : p.cacheKey files = p.cacheKey files' := by
    simp only [cacheKey, Fingerprint.fingerprint, Fingerprint.fingerprintBy, Fingerprint.message, hsorted]
  refine ⟨hrun, fun cache asked stored => ?_⟩
  unfold runCached
  rw [hkey, hrun]

theorem run_eq_of_swapped_files :
    let p : AnalysisPlan :=
      { model := .direct fun _ => .ok (.str r#"{"fileEdges": []}"#), maxFiles := some 2 }
    let files : FileMap :=
      [("b.ts", "export const t = 1;\n"), ("a.ts", "import './b';\n"), ("lib/c.py", "import b\n")]
    let files' : FileMap :=
      [("lib/c.py", "import b\n"), ("a.ts", "import './b';\n"), ("b.ts", "export const t = 1;\n")]
    files.Perm files' ∧ files.paths.Nodup ∧ p.run files = p.run files' := by
  intro p files files'
  have hperm : files.Perm files' := by decide
  have hnodup : files.paths.Nodup := by decide
  exact ⟨hperm, hnodup, (p.run_eq_of_perm hperm hnodup).1⟩

end AnalysisPlan

end CodeAtlas
