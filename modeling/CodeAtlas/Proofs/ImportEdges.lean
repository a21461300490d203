import CodeAtlas.Proofs.CallEdges
import CodeAtlas.Proofs.EdgeHistory

/-!
# What imports leave in an assembly

A binding with a source joins its file to the file that the source leads to, if that one is analysed, or
else leaves the source among the unresolved ones of its file. The file edges, the targets of bindings and
the warnings of an assembly are exactly what the bindings leave there (`ofAnalyses_imports`).
-/

namespace CodeAtlas

/-! ## First places -/

/-- The texts of a list that have the property, each once, in the order of their first places. -/
structure FirstPlaces (P : String → Prop) (xs listed : List String) : Prop where
  mem_iff : ∀ s, s ∈ listed ↔ s ∈ xs ∧ P s
  ordered : listed.Pairwise fun s t => xs.idxOf s < xs.idxOf t

theorem eraseDups_filter_pairwise (xs : List String) : ∀ p : String → Bool,
    (xs.filter p).eraseDups.Pairwise fun s t => xs.idxOf s < xs.idxOf t := by
  induction xs with
  | nil => intro p; exact .nil
  | cons x xs ih =>
    intro p
    -- what is not `x` stands one place later behind it
    have hlater : ∀ q : String → Bool, q x = false → (xs.filter q).eraseDups.Pairwise
        fun s t => (x :: xs).idxOf s < (x :: xs).idxOf t := by
      intro q hx
      have hne : ∀ s ∈ (xs.filter q).eraseDups, x ≠ s := by
        intro s hs heq
        have hq := (List.mem_filter.mp (List.mem_eraseDups.mp hs)).2
        rw [← heq, hx] at hq
        cases hq
      apply (ih q).imp_of_mem
      intro s t hs ht hlt
      rw [List.idxOf_cons_ne _ (hne s hs), List.idxOf_cons_ne _ (hne t ht)]
      exact Nat.succ_lt_succ hlt
    by_cases hp : p x = true
    · rw [List.filter_cons_of_pos hp, List.eraseDups_cons, List.filter_filter]
      apply List.pairwise_cons.mpr
      constructor
      · intro s hs
        have hs := (List.mem_filter.mp (List.mem_eraseDups.mp hs)).2
        have hne : x ≠ s := by
          intro heq
          simp [heq] at hs
        rw [List.idxOf_cons_self, List.idxOf_cons_ne _ hne]
        exact Nat.succ_pos _
      · exact hlater _ (by simp)
    · rw [List.filter_cons_of_neg hp]
      exact hlater p (Bool.eq_false_iff.mpr hp)

theorem firstPlaces_eraseDups {P : String → Prop} {p : String → Bool} (h : ∀ s, p s = true ↔ P s)
    (xs : List String) : FirstPlaces P xs (xs.filter p).eraseDups where
  mem_iff := by
    intro s
    rw [List.mem_eraseDups, List.mem_filter, h]
  ordered := eraseDups_filter_pairwise xs p

/-! ## Stores of bare edges -/

/-- Where no write brings a confidence or a reason, the first write to a key is the edge. -/
theorem EdgeStore.Reflects.find?_eq {s : EdgeStore} {past : List Edge} (h : s.Reflects past)
    (hbare : ∀ w ∈ past, w.confidence = none ∧ w.reason = none) (key : String) :
    s.find? key = past.find? (·.key == key) := by
  cases hfound : s.find? key with
  | none => rw [h.find?_eq_none hfound]
  | some e =>
    have hsettled := h.settled_of_find? hfound
    obtain ⟨first, later, hwrites, hsource, htarget, hkind, hprovenance, hreason⟩ := hsettled.first
    have hmem : ∀ w ∈ first :: later, w ∈ past := by
      intro w hw
      rw [← hwrites] at hw
      exact List.mem_of_mem_filter hw
    have hlater : later.filterMap (·.reason) = [] := by
      rw [List.filterMap_eq_nil_iff]
      intro w hw
      exact (hbare w (hmem w (List.mem_cons_of_mem _ hw))).2
    have hfirst := hbare first (hmem first List.mem_cons_self)
    have hconfidence : e.confidence = first.confidence := by
      rw [hsettled.confidence, hwrites, hfirst.1, List.findSome?_eq_none_iff]
      intro w hw
      exact (hbare w (hmem w hw)).1
    have he : e = first := by
      rw [settledReason, hlater, List.find?_nil, Option.or_none] at hreason
      cases e
      cases first
      simp_all
    rw [he, ← List.head?_filter, hwrites]
    rfl

namespace Assembly

/-! ## Bindings and the edges they give -/

def bindings (analyses : List FileAnalysis) : List (String × ImportBinding) :=
  analyses.flatMap fun a => a.imports.map fun b => (a.path, b)

structure Joins (r : Resolver) (analyses : List FileAnalysis) (path : String) (b : ImportBinding)
    (target : String) : Prop where
  source : b.source ≠ ""
  resolved : r.resolve path b.source = some target
  analysed : target ∈ analyses.map (·.path)

def joining (path : String) (b : ImportBinding) (target : String) : Edge :=
  { source := path, target, kind := if b.reexport then "reexports" else "imports" }

section
variable {r : Resolver} {analyses : List FileAnalysis}

theorem importEdge?_eq_some_iff {path : String} {b : ImportBinding} {e : Edge} :
    importEdge? r (analyses.map (·.path)) path b = some e ↔
      ∃ target, Joins r analyses path b target ∧ e = joining path b target := by
  unfold importEdge?
  rw [importTarget_eq]
  cases hresolve : r.resolve path b.source with
  | none =>
    constructor
    · intro h
      cases h
    · intro h
      obtain ⟨target, hjoins, -⟩ := h
      rw [hjoins.resolved] at hresolve
      cases hresolve
  | some target =>
    have hsource : b.source ≠ "" := by
      intro hempty
      simp [hempty, Resolver.resolve] at hresolve
    by_cases hmem : target ∈ analyses.map (·.path)
    · simp only [List.contains_iff_mem, hmem, if_true, Option.some.injEq]
      constructor
      · intro h
        exact ⟨target, ⟨hsource, hresolve, hmem⟩, h.symm⟩
      · intro h
        obtain ⟨target', hjoins, rfl⟩ := h
        rw [hjoins.resolved] at hresolve
        cases hresolve
        rfl
    · simp only [List.contains_iff_mem, hmem, if_false]
      constructor
      · intro h
        cases h
      · intro h
        obtain ⟨target', hjoins, -⟩ := h
        rw [hjoins.resolved] at hresolve
        cases hresolve
        exact absurd hjoins.analysed hmem

theorem importEdges_eq : importEdges r analyses =
    (bindings analyses).filterMap fun x => importEdge? r (analyses.map (·.path)) x.1 x.2 := by
  simp [importEdges, bindings, List.filterMap_flatMap, List.filterMap_map]

theorem mem_importEdges {e : Edge} : e ∈ importEdges r analyses ↔
    ∃ a ∈ analyses, ∃ b ∈ a.imports, ∃ target, Joins r analyses a.path b target ∧
      e = joining a.path b target := by
  simp only [importEdges, List.mem_flatMap, List.mem_filterMap, importEdge?_eq_some_iff]

def FirstToJoin (r : Resolver) (analyses : List FileAnalysis) (key path : String) (b : ImportBinding)
    (target : String) : Prop :=
  Joins r analyses path b target ∧ edgeKey path target = key ∧
  ∃ before after, bindings analyses = before ++ (path, b) :: after ∧
    ∀ x ∈ before, ∀ t, Joins r analyses x.1 x.2 t → edgeKey x.1 t ≠ key

theorem Joins.unique {path : String} {b : ImportBinding} {t u : String} (ht : Joins r analyses path b t)
    (hu : Joins r analyses path b u) : t = u :=
  Option.some.inj (ht.resolved.symm.trans hu.resolved)

theorem importEdge?_any_key {key path : String} {b : ImportBinding} :
    (importEdge? r (analyses.map (·.path)) path b).any (·.key == key) = true ↔
      ∃ target, Joins r analyses path b target ∧ edgeKey path target = key := by
  rw [Option.any_eq_true]
  constructor
  · intro h
    obtain ⟨e, he, hkey⟩ := h
    obtain ⟨target, hjoins, rfl⟩ := importEdge?_eq_some_iff.mp he
    exact ⟨target, hjoins, beq_iff_eq.mp hkey⟩
  · intro h
    obtain ⟨target, hjoins, hkey⟩ := h
    exact ⟨_, importEdge?_eq_some_iff.mpr ⟨target, hjoins, rfl⟩, beq_iff_eq.mpr hkey⟩

theorem find?_importEdges {key : String} {e : Edge} :
    (importEdges r analyses).find? (·.key == key) = some e ↔
      ∃ path b target, FirstToJoin r analyses key path b target ∧ e = joining path b target := by
  rw [importEdges_eq, List.find?_filterMap, Option.bind_eq_some_iff]
  constructor
  · intro h
    obtain ⟨⟨path, b⟩, hfirst, he⟩ := h
    obtain ⟨hany, before, after, hsplit, hbefore⟩ := List.find?_eq_some_iff_append.mp hfirst
    obtain ⟨target, hjoins, hkey⟩ := importEdge?_any_key.mp hany
    obtain ⟨target', hjoins', rfl⟩ := importEdge?_eq_some_iff.mp he
    rw [hjoins'.unique hjoins]
    refine ⟨path, b, target, ⟨hjoins, hkey, before, after, hsplit, ?_⟩, rfl⟩
    intro x hx t ht hkey'
    have hnone := hbefore x hx
    rw [importEdge?_any_key.mpr ⟨t, ht, hkey'⟩] at hnone
    cases hnone
  · intro h
    obtain ⟨path, b, target, ⟨hjoins, hkey, before, after, hsplit, hbefore⟩, rfl⟩ := h
    refine ⟨(path, b), ?_, importEdge?_eq_some_iff.mpr ⟨target, hjoins, rfl⟩⟩
    refine List.find?_eq_some_iff_append.mpr
      ⟨importEdge?_any_key.mpr ⟨target, hjoins, hkey⟩, before, after, hsplit, ?_⟩
    intro x hx
    rw [Bool.not_eq_true', Bool.eq_false_iff]
    intro hany
    obtain ⟨t, ht, hkey'⟩ := importEdge?_any_key.mp hany
    exact hbefore x hx t ht hkey'

theorem fileEdges_find? {key : String} {e : Edge} :
    (EdgeStore.upsertAll {} (importEdges r analyses)).find? key = some e ↔
      ∃ path b target, FirstToJoin r analyses key path b target ∧ e = joining path b target := by
  have hstore : (EdgeStore.upsertAll {} (importEdges r analyses)).Reflects (importEdges r analyses) := by
    simpa using EdgeStore.Reflects.empty.upsertAll (importEdges r analyses)
  rw [hstore.find?_eq, find?_importEdges]
  intro w hw
  obtain ⟨a, -, b, -, target, -, rfl⟩ := mem_importEdges.mp hw
  exact ⟨rfl, rfl⟩

theorem mem_fileEdges_keys {key : String} :
    key ∈ (EdgeStore.upsertAll {} (importEdges r analyses)).keys ↔
      ∃ a ∈ analyses, ∃ b ∈ a.imports, ∃ target, Joins r analyses a.path b target ∧
        edgeKey a.path target = key := by
  rw [EdgeStore.mem_upsertAll_keys, List.mem_map]
  constructor
  · intro h
    rcases h with h | ⟨e, he, rfl⟩
    · cases h
    · obtain ⟨a, ha, b, hb, target, hjoins, rfl⟩ := mem_importEdges.mp he
      exact ⟨a, ha, b, hb, target, hjoins, rfl⟩
  · intro h
    obtain ⟨a, ha, b, hb, target, hjoins, rfl⟩ := h
    exact .inr ⟨_, mem_importEdges.mpr ⟨a, ha, b, hb, target, hjoins, rfl⟩, rfl⟩

end

/-! ## Unresolved sources -/

section
variable {r : Resolver} {analyses : List FileAnalysis} (hpaths : (analyses.map (·.path)).Nodup)
variable {a : FileAnalysis} (ha : a ∈ analyses)
include hpaths ha

theorem filter_path : analyses.filter (·.path == a.path) = [a] := by
  induction analyses with
  | nil => cases ha
  | cons b analyses ih =>
    rw [List.map_cons, List.nodup_cons] at hpaths
    rcases List.mem_cons.mp ha with rfl | ha
    · have hnone : analyses.filter (·.path == a.path) = [] := by
        rw [List.filter_eq_nil_iff]
        intro c hc heq
        apply hpaths.1
        rw [← beq_iff_eq.mp heq]
        exact List.mem_map_of_mem hc
      simp [hnone]
    · have hne : b.path ≠ a.path := by
        intro heq
        apply hpaths.1
        rw [heq]
        exact List.mem_map_of_mem ha
      rw [List.filter_cons_of_neg (by simpa using hne), ih hpaths.2 ha]

theorem unresolved_firstPlaces : FirstPlaces (fun s => s ≠ "" ∧ r.resolve a.path s = none)
    (a.imports.map (·.source)) (unresolved r analyses a.path) := by
  unfold unresolved
  rw [filter_path hpaths ha, List.flatMap_singleton]
  apply firstPlaces_eraseDups
  intro s
  simp

end

/-- What resolution makes of a binding. Without a source it stays as it is; else its source leads to a
file, which the binding and all its specifiers have then as target, or it is left unresolved. -/
inductive Settled (r : Resolver) (analyses : List FileAnalysis) (path : String) (b b' : ImportBinding) : Prop
  | sourceless (hsource : b.source = "") (hsame : b' = b)
  | tied (target : String) (hsource : b.source ≠ "") (hresolve : r.resolve path b.source = some target)
      (htied : b' = { b with
        target := some target
        specifiers := b.specifiers.map fun s => { s with target := some target } })
      (hlisted : b.source ∉ unresolved r analyses path)
  | lost (hsource : b.source ≠ "") (hresolve : r.resolve path b.source = none) (hsame : b' = b)
      (hlisted : b.source ∈ unresolved r analyses path)

theorem bindTarget_settled {r : Resolver} {analyses : List FileAnalysis}
    (hpaths : (analyses.map (·.path)).Nodup) {a : FileAnalysis} (ha : a ∈ analyses) {b : ImportBinding}
    (hb : b ∈ a.imports) : Settled r analyses a.path b (bindTarget r a.path b) := by
  have hlisted := (unresolved_firstPlaces (r := r) hpaths ha).mem_iff b.source
  by_cases hsource : b.source = ""
  · apply Settled.sourceless hsource
    simp [bindTarget, importTarget, hsource]
  · cases hresolve : r.resolve a.path b.source with
    | none =>
      apply Settled.lost hsource hresolve
      · simp [bindTarget, importTarget_eq, hresolve]
      · exact hlisted.mpr ⟨List.mem_map_of_mem hb, hsource, hresolve⟩
    | some target =>
      apply Settled.tied target hsource hresolve
      · simp [bindTarget, importTarget_eq, hresolve]
      · intro hmem
        have hnone := (hlisted.mp hmem).2.2
        rw [hresolve] at hnone
        cases hnone

theorem forall₂_zipIdx {α : Type} (xs : List α) : ∀ n : Nat,
    List.Forall₂ (fun x y => y.1 = x) xs (xs.zipIdx n) := by
  induction xs with
  | nil => intro n; exact .nil
  | cons x xs ih => intro n; exact .cons rfl (ih (n + 1))

/-- Settling calls leaves paths and imports as they are. -/
theorem settleCalls_imports (exports : ExportIndex) (analyses : List FileAnalysis) :
    List.Forall₂ (fun a a' => a'.path = a.path ∧ a'.imports = a.imports) analyses
      (settleCalls exports analyses) := by
  unfold settleCalls
  rw [List.forall₂_map_right_iff]
  apply (forall₂_zipIdx analyses 0).imp
  intro a x hx
  subst hx
  exact ⟨rfl, rfl⟩

/-! ## Warnings -/

def unresolvedText (path : String) (sources : List String) : String :=
  if sources.length ≤ 5 then "Could not resolve imports in " ++ path ++ ": " ++ ", ".intercalate sources
  else "Some imports in " ++ path ++ " could not be resolved: " ++ ", ".intercalate (sources.take 5)
    ++ ", …"

theorem unresolvedWarning?_eq (path : String) (sources : List String) :
    unresolvedWarning? path sources =
      if sources = [] then none else some (unresolvedText path sources) := by
  unfold unresolvedWarning? unresolvedText maxUnresolvedShown
  by_cases hnil : sources = []
  · simp [hnil]
  · by_cases hlong : sources.length ≤ 5
    · have hshort : ¬ 5 < sources.length := by omega
      simp [hnil, hlong, hshort, List.take_of_length_le hlong, toString]
    · have hlong' : 5 < sources.length := by omega
      simp [hnil, hlong, hlong', toString]

section
variable {r : Resolver} {analyses : List FileAnalysis} (hpaths : (analyses.map (·.path)).Nodup)
include hpaths

theorem byPath_pairwise_lt : (byPath analyses).Pairwise fun a b => a.path < b.path := by
  have hle : (byPath analyses).Pairwise fun a b => a.path ≤ b.path := List.pairwise_mergeSort' _ _
  have hne : (byPath analyses).Pairwise fun a b => a.path ≠ b.path := by
    have hnodup := ((byPath_perm analyses).map (·.path)).nodup_iff.mpr hpaths
    exact List.pairwise_map.mp hnodup
  apply (hle.and hne).imp
  intro a b h
  rw [← String.not_le]
  intro hba
  exact h.2 (String.le_antisymm h.1 hba)

theorem sortedTexts_paths : sortedTexts (analyses.map (·.path)).eraseDups = (byPath analyses).map (·.path) := by
  have honce : (analyses.map (·.path)).eraseDups.Perm (analyses.map (·.path)) := by
    rw [List.perm_ext_iff_of_nodup (nodup_eraseDups _) hpaths]
    intro path
    exact List.mem_eraseDups
  have hperm : (sortedTexts (analyses.map (·.path)).eraseDups).Perm ((byPath analyses).map (·.path)) :=
    ((sortedTexts_perm _).trans honce).trans ((byPath_perm analyses).map (·.path)).symm
  refine List.Perm.eq_of_pairwise (fun a b _ _ hab hba => String.le_antisymm hab hba)
    (List.pairwise_mergeSort' _ _) ?_ hperm
  exact List.pairwise_map.mpr (List.pairwise_mergeSort' _ _)

theorem unresolvedWarnings_eq : unresolvedWarnings r analyses =
    ((byPath analyses).filter fun a => unresolved r analyses a.path ≠ []).map
      fun a => unresolvedText a.path (unresolved r analyses a.path) := by
  unfold unresolvedWarnings
  rw [sortedTexts_paths hpaths, List.filterMap_map, Function.comp_def]
  induction byPath analyses with
  | nil => rfl
  | cons a files ih =>
    have hwarning := unresolvedWarning?_eq a.path (unresolved r analyses a.path)
    by_cases hnil : unresolved r analyses a.path = []
    · rw [if_pos hnil] at hwarning
      simp only [List.filterMap_cons, hwarning, ih]
      rw [List.filter_cons_of_neg (by simp [hnil])]
    · rw [if_neg hnil] at hwarning
      simp only [List.filterMap_cons, hwarning, ih]
      rw [List.filter_cons_of_pos (by simp [hnil]), List.map_cons]

theorem unresolved_ne_nil_iff {a : FileAnalysis} (ha : a ∈ analyses) :
    unresolved r analyses a.path ≠ [] ↔
      ∃ b ∈ a.imports, b.source ≠ "" ∧ r.resolve a.path b.source = none := by
  have hlisted := (unresolved_firstPlaces (r := r) hpaths ha).mem_iff
  constructor
  · intro h
    obtain ⟨s, hs⟩ := List.exists_mem_of_ne_nil _ h
    obtain ⟨hsource, hlost⟩ := (hlisted s).mp hs
    obtain ⟨b, hb, rfl⟩ := List.mem_map.mp hsource
    exact ⟨b, hb, hlost⟩
  · intro h
    obtain ⟨b, hb, hlost⟩ := h
    exact List.ne_nil_of_mem ((hlisted b.source).mpr ⟨List.mem_map_of_mem hb, hlost⟩)

end

/-! ## The whole -/

/-- What an assembly has of the imports of its files, which have different paths. The file edges are those
of bindings that lead to an analysed file, each as the first binding to its key makes it. Every binding
is tied to what its source leads to, or the source is left unresolved. The unresolved sources of a file
are listed once each, in the order of their first places. Every file that has any gets one warning, in
the order of the paths. -/
theorem ofAnalyses_imports (analyses : List FileAnalysis) (r : Resolver) (scanned : List String)
    (label : String) (hpaths : (analyses.map (·.path)).Nodup) :
    let result := ofAnalyses analyses r scanned label
    (∀ key, key ∈ result.fileEdges.keys ↔ ∃ a ∈ analyses, ∃ b ∈ a.imports, ∃ target,
      Joins r analyses a.path b target ∧ edgeKey a.path target = key) ∧
    (∀ key e, result.fileEdges.find? key = some e ↔
      ∃ path b target, FirstToJoin r analyses key path b target ∧ e = joining path b target) ∧
    List.Forall₂ (fun a a' => a'.path = a.path ∧
      List.Forall₂ (Settled r analyses a.path) a.imports a'.imports) analyses result.analyses ∧
    (∀ a ∈ analyses, FirstPlaces (fun s => s ≠ "" ∧ r.resolve a.path s = none)
      (a.imports.map (·.source)) (unresolved r analyses a.path)) ∧
    ∃ files : List FileAnalysis, files.Pairwise (fun a b => a.path < b.path) ∧
      (∀ a, a ∈ files ↔ a ∈ analyses ∧
        ∃ b ∈ a.imports, b.source ≠ "" ∧ r.resolve a.path b.source = none) ∧
      result.warnings = files.map fun a => unresolvedText a.path (unresolved r analyses a.path) := by
  intro result
  refine ⟨fun key => mem_fileEdges_keys, fun key e => fileEdges_find?, ?_,
    fun a ha => unresolved_firstPlaces hpaths ha, ?_⟩
  · have hresolved := settleCalls_imports result.exports (analyses.map (resolveImports r))
    rw [List.forall₂_map_left_iff] at hresolved
    apply ((List.forall₂_and_left analyses _).mpr ⟨fun a ha => ha, hresolved⟩).imp
    intro a a' h
    obtain ⟨ha, hpath, himports⟩ := h
    refine ⟨hpath, ?_⟩
    rw [himports]
    apply List.forall₂_map_right_iff.mpr
    apply List.forall₂_same.mpr
    intro b hb
    exact bindTarget_settled hpaths ha hb
  · refine ⟨_, (byPath_pairwise_lt hpaths).filter _, ?_, unresolvedWarnings_eq hpaths⟩
    intro a
    rw [List.mem_filter, (byPath_perm analyses).mem_iff, decide_eq_true_iff]
    apply and_congr_right
    intro ha
    exact unresolved_ne_nil_iff hpaths ha

def crossFiles : Resolver where
  known := ["a.ts", "b.ts", "data.json"]

/-- Two files that import each other, one of them by two sources, with sources that lead to a file that is
not analysed, or nowhere. -/
def crossImports : List FileAnalysis :=
  [{ path := "b.ts", language := "typescript"
     imports := [{ source := "react" }, { source := "./a", reexport := true }, { source := "./a.ts" },
       { source := "" }, { source := "react" }] },
    { path := "a.ts", language := "typescript", imports := [{ source := "./b" }, { source := "./data" }] }]

theorem ofAnalyses_crossImports :
    let result := ofAnalyses crossImports crossFiles [] "."
    (crossImports.map (·.path)).Nodup ∧
    result.fileEdges.find? "b.ts->a.ts" =
      some { source := "b.ts", target := "a.ts", kind := "reexports" } ∧
    "a.ts->data.json" ∉ result.fileEdges.keys ∧
    "react" ∈ unresolved crossFiles crossImports "b.ts" := by
  intro result
  have hpaths : (crossImports.map (·.path)).Nodup := by decide
  obtain ⟨hkeys, hfirst, -, hlisted, -⟩ := ofAnalyses_imports crossImports crossFiles [] "." hpaths
  refine ⟨hpaths, ?_, ?_, ?_⟩
  · refine (hfirst _ _).mpr ⟨"b.ts", { source := "./a", reexport := true }, "a.ts",
      ⟨⟨by decide, by decide +kernel, by decide⟩, rfl, [("b.ts", { source := "react" })], _, rfl, ?_⟩, rfl⟩
    intro x hx t hjoins
    obtain rfl := List.mem_singleton.mp hx
    have hreact : crossFiles.resolve "b.ts" "react" = none := by decide +kernel
    cases hreact.symm.trans hjoins.resolved
  · intro hmem
    obtain ⟨a, ha, b, -, target, hjoins, hkey⟩ := (hkeys _).mp hmem
    have hpath : a.path ∈ ["b.ts", "a.ts"] := List.mem_map_of_mem ha
    have htarget : target ∈ ["b.ts", "a.ts"] := hjoins.analysed
    have hother : ∀ x ∈ ["b.ts", "a.ts"], ∀ y ∈ ["b.ts", "a.ts"], edgeKey x y ≠ "a.ts->data.json" := by
      decide
    exact hother _ hpath _ htarget hkey
  · refine ((hlisted _ List.mem_cons_self).mem_iff "react").mpr ⟨by decide, by decide, ?_⟩
    decide +kernel

end Assembly

end CodeAtlas
