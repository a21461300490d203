import CodeAtlas.Proofs.EdgeStore
import Mathlib.Data.List.Nodup
import Mathlib.Data.List.Sort
import Mathlib.Data.String.Basic

/-!
# Nodes and edges of an assembly

Which ids the nodes of an assembly have, and that the edges it makes end at them: imports at
analysed files (`importEdges_ends`), calls at records that are shown because of the call
(`callEdges_ends`).
-/

namespace CodeAtlas

def Graph.idsOfKind (g : Graph FileNode) (kind : String) : List String :=
  (g.nodes.filter (·.kind == kind)).map (·.id)

def Graph.functionIds (g : Graph FunctionNode) : List String :=
  g.nodes.map (·.id)

def Edge.Within (ids : List String) (e : Edge) : Prop :=
  e.source ∈ ids ∧ e.target ∈ ids

theorem Edge.Within.of_completes {ids : List String} (a b : Edge) (h : b.Completes a)
    (ha : a.Within ids) : b.Within ids := by
  rw [Edge.Within, h.source, h.target]
  exact ha

theorem nodup_eraseDups {α : Type} [BEq α] [LawfulBEq α] (xs : List α) : xs.eraseDups.Nodup := by
  induction hn : xs.length using Nat.strongRecOn generalizing xs with
  | _ n ih =>
    cases xs with
    | nil => simp
    | cons x xs =>
      rw [List.eraseDups_cons]
      refine List.nodup_cons.mpr ⟨by simp, ih _ ?_ _ rfl⟩
      have := List.length_filter_le (fun y => !y == x) xs
      simp only [List.length_cons] at hn
      omega

theorem sortedTexts_perm (xs : List String) : (sortedTexts xs).Perm xs :=
  List.mergeSort_perm xs _

namespace Assembly

theorem byPath_perm (analyses : List FileAnalysis) : (byPath analyses).Perm analyses :=
  List.mergeSort_perm analyses _

/-! ## File nodes -/

section
variable (analyses : List FileAnalysis) (r : Resolver) (scanned : List String) (label : String)

theorem idsOfKind_file : (ofAnalyses analyses r scanned label).fileGraph.idsOfKind "file" =
    (byPath analyses).map (·.path) := by
  simp [Graph.idsOfKind, fileGraph, ofAnalyses, directoryNode, fileNode, List.filter_map,
    Function.comp_def]

theorem idsOfKind_directory : (ofAnalyses analyses r scanned label).fileGraph.idsOfKind "directory" =
    (directories (if scanned.isEmpty then analyses.map (·.path) else scanned)).map ("dir:" ++ ·) := by
  simp [Graph.idsOfKind, fileGraph, ofAnalyses, directoryNode, fileNode, List.filter_map,
    Function.comp_def]

theorem shownFiles_eq : (ofAnalyses analyses r scanned label).shownFiles =
    (ofAnalyses analyses r scanned label).fileGraph.idsOfKind "file" := by
  rw [idsOfKind_file]
  simp [shownFiles, ofAnalyses, directoryNode, fileNode, List.filter_map, Function.comp_def]

theorem mem_idsOfKind_file {path : String} :
    path ∈ (ofAnalyses analyses r scanned label).fileGraph.idsOfKind "file" ↔
      path ∈ analyses.map (·.path) := by
  rw [idsOfKind_file]
  exact ((byPath_perm analyses).map _).mem_iff

theorem fileIds_nodup (h : (analyses.map (·.path)).Nodup) :
    ((ofAnalyses analyses r scanned label).fileGraph.idsOfKind "file").Nodup := by
  rw [idsOfKind_file]
  exact ((byPath_perm analyses).map _).nodup_iff.mpr h

theorem climb_nodup {found : List String} (h : found.Nodup) (directory : String) :
    (climb found directory).Nodup := by
  fun_induction climb found directory with
  | case1 found directory _ => exact h
  | case2 found directory hnew ih =>
    apply ih
    rw [← List.concat_eq_append, List.nodup_concat]
    simp only [Bool.or_eq_true, not_or, List.contains_iff_mem] at hnew
    exact ⟨hnew.2, h⟩

theorem subset_climb (found : List String) (directory : String) : found ⊆ climb found directory := by
  fun_induction climb found directory with
  | case1 found directory _ => exact fun _ h => h
  | case2 found directory _ ih => exact fun _ h => ih (List.mem_append_left _ h)

theorem directories_nodup (paths : List String) : (directories paths).Nodup := by
  rw [directories, (sortedTexts_perm _).nodup_iff]
  have run : ∀ found : List String, found.Nodup →
      (paths.foldl (fun found path => climb found (Path.dirname path)) found).Nodup := by
    induction paths with
    | nil => exact fun _ h => h
    | cons path paths ih => exact fun _ h => ih _ (climb_nodup h _)
  exact run _ (List.nodup_singleton _)

theorem directoryIds_nodup :
    ((ofAnalyses analyses r scanned label).fileGraph.idsOfKind "directory").Nodup := by
  rw [idsOfKind_directory]
  refine (directories_nodup _).map fun a b h => ?_
  exact (String.append_right_inj "dir:").mp h

end

/-! ## Imports -/

theorem importEdges_ends {r : Resolver} {analyses : List FileAnalysis} {e : Edge}
    (he : e ∈ importEdges r analyses) : e.Within (analyses.map (·.path)) := by
  simp only [importEdges, List.mem_flatMap, List.mem_filterMap] at he
  obtain ⟨a, ha, b, -, hb⟩ := he
  unfold importEdge? at hb
  split at hb
  · split at hb
    · rename_i target _ hmem
      cases hb
      exact ⟨List.mem_map_of_mem ha, List.contains_iff_mem.mp hmem⟩
    · cases hb
  · cases hb

/-! ## Shown records -/

/-- The first record of each id, behind those seen so far. -/
def firstOfIds (seen : List FunctionRecord) (fs : List FunctionRecord) : List FunctionRecord :=
  fs.foldl (fun seen f => if seen.any (·.id == f.id) then seen else seen ++ [f]) seen

theorem shownRecords_eq (analyses : List FileAnalysis) : shownRecords analyses =
    firstOfIds [] ((byPath analyses).flatMap fun a => a.functions.filter (·.included)) := rfl

theorem firstOfIds_cons (seen : List FunctionRecord) (f : FunctionRecord) (fs : List FunctionRecord) :
    firstOfIds seen (f :: fs) =
      if seen.any (·.id == f.id) then firstOfIds seen fs else firstOfIds (seen ++ [f]) fs := by
  rw [firstOfIds, List.foldl_cons]
  split <;> rfl

theorem firstOfIds_nodup (fs : List FunctionRecord) : ∀ seen : List FunctionRecord,
    (seen.map (·.id)).Nodup → ((firstOfIds seen fs).map (·.id)).Nodup := by
  induction fs with
  | nil => intro seen h; exact h
  | cons f fs ih =>
    intro seen h
    rw [firstOfIds_cons]
    split
    · exact ih seen h
    · rename_i hnew
      refine ih _ ?_
      rw [List.map_append]
      refine List.nodup_append.mpr ⟨h, by simp, ?_⟩
      intro a ha b hb hab
      obtain ⟨g, hg, rfl⟩ := List.mem_map.mp ha
      refine hnew (List.any_eq_true.mpr ⟨g, hg, ?_⟩)
      simpa [hab] using hb

theorem mem_firstOfIds (fs : List FunctionRecord) (id : String) : ∀ seen : List FunctionRecord,
    id ∈ (firstOfIds seen fs).map (·.id) ↔ id ∈ seen.map (·.id) ∨ id ∈ fs.map (·.id) := by
  induction fs with
  | nil => intro seen; simp [firstOfIds]
  | cons f fs ih =>
    intro seen
    rw [firstOfIds_cons]
    split
    · rename_i hold
      obtain ⟨g, hg, hgf⟩ := List.any_eq_true.mp hold
      have hf : f.id ∈ seen.map (·.id) := List.mem_map.mpr ⟨g, hg, by simpa using hgf⟩
      rw [ih, List.map_cons, List.mem_cons]
      constructor
      · rintro (h | h)
        · exact .inl h
        · exact .inr (.inr h)
      · rintro (h | rfl | h)
        · exact .inl h
        · exact .inl hf
        · exact .inr h
    · rw [ih, List.map_append, List.mem_append, List.map_cons, List.map_cons, List.mem_cons, or_assoc]
      simp

theorem shownIds_nodup (analyses : List FileAnalysis) :
    ((shownRecords analyses).map (·.id)).Nodup := by
  rw [shownRecords_eq]
  exact firstOfIds_nodup _ [] (by simp)

theorem mem_shownIds {analyses : List FileAnalysis} {id : String} :
    id ∈ (shownRecords analyses).map (·.id) ↔
      ∃ a ∈ analyses, ∃ f ∈ a.functions, f.included = true ∧ f.id = id := by
  rw [shownRecords_eq, mem_firstOfIds]
  simp only [List.map_nil, List.not_mem_nil, false_or, List.mem_map, List.mem_flatMap,
    List.mem_filter, (byPath_perm analyses).mem_iff]
  constructor
  · rintro ⟨f, ⟨a, ha, hf, hi⟩, rfl⟩
    exact ⟨a, ha, f, hf, hi, rfl⟩
  · rintro ⟨a, ha, f, hf, hi, rfl⟩
    exact ⟨f, ⟨a, ha, hf, hi⟩, rfl⟩

theorem functionIds_eq (analyses : List FileAnalysis) (r : Resolver) (scanned : List String)
    (label : String) : (ofAnalyses analyses r scanned label).functionGraph.functionIds =
      (shownRecords (ofAnalyses analyses r scanned label).analyses).map (·.id) := by
  simp [Graph.functionIds, functionGraph, ofAnalyses, functionNode, Function.comp_def]

theorem functionIds_nodup (analyses : List FileAnalysis) (r : Resolver) (scanned : List String)
    (label : String) : (ofAnalyses analyses r scanned label).functionGraph.functionIds.Nodup := by
  rw [functionIds_eq]
  exact shownIds_nodup _

/-! ## Calls -/

theorem recordAt?_settleCalls (exports : ExportIndex) (analyses : List FileAnalysis) (p : Place) :
    recordAt? (settleCalls exports analyses) p =
      (recordAt? analyses p).map (showLinked (links exports analyses) p) := by
  simp only [recordAt?, settleCalls, List.getElem?_map, List.getElem?_zipIdx]
  cases analyses[p.file]? with
  | none => rfl
  | some a =>
    simp only [Option.map_some, Option.bind_some, List.getElem?_map, List.getElem?_zipIdx]
    cases a.functions[p.slot]? with
    | none => rfl
    | some f => simp

theorem showLinked_id (ls : List Link) (p : Place) (f : FunctionRecord) :
    (showLinked ls p f).id = f.id := by
  unfold showLinked
  split <;> rfl

theorem showLinked_included {ls : List Link} {l : Link} (hl : l ∈ ls) {p : Place}
    (hp : l.caller = p ∨ l.callee = p) (f : FunctionRecord) : (showLinked ls p f).included = true := by
  unfold showLinked
  rw [if_pos]
  refine List.any_eq_true.mpr ⟨l, hl, ?_⟩
  rcases hp with rfl | rfl <;> simp

theorem mem_shownIds_of_recordAt? {analyses : List FileAnalysis} {p : Place} {f : FunctionRecord}
    (h : recordAt? analyses p = some f) (hf : f.included = true) :
    f.id ∈ (shownRecords analyses).map (·.id) := by
  obtain ⟨a, ha, hfa⟩ := Option.bind_eq_some_iff.mp h
  exact mem_shownIds.mpr ⟨a, List.mem_of_getElem? ha, f, List.mem_of_getElem? hfa, hf, rfl⟩

/-- A record that a link starts from or reaches is shown once calls are settled. -/
theorem linked_shown {exports : ExportIndex} {analyses : List FileAnalysis} {l : Link}
    (hl : l ∈ links exports analyses) {p : Place} (hp : l.caller = p ∨ l.callee = p)
    {f : FunctionRecord} (hf : recordAt? analyses p = some f) :
    f.id ∈ (shownRecords (settleCalls exports analyses)).map (·.id) := by
  rw [← showLinked_id (links exports analyses) p f]
  refine mem_shownIds_of_recordAt? (p := p) ?_ (showLinked_included hl hp f)
  rw [recordAt?_settleCalls, hf, Option.map_some]

theorem callEdges_ends {exports : ExportIndex} {analyses : List FileAnalysis} {e : Edge}
    (he : e ∈ (links exports analyses).filterMap (callEdge? analyses)) :
    e.Within ((shownRecords (settleCalls exports analyses)).map (·.id)) := by
  obtain ⟨l, hl, hle⟩ := List.mem_filterMap.mp he
  simp only [callEdge?, Option.bind_eq_bind, Option.bind_eq_some_iff] at hle
  obtain ⟨caller, hcaller, callee, hcallee, heq⟩ := hle
  cases heq
  exact ⟨linked_shown hl (.inl rfl) hcaller, linked_shown hl (.inr rfl) hcallee⟩

/-! ## The whole -/

/-- The edges of both graphs end at nodes, one edge for each key. -/
structure Linked (a : Assembly) : Prop where
  fileEnds : ∀ e ∈ a.fileEdges.edges, e.Within (a.fileGraph.idsOfKind "file")
  functionEnds : ∀ e ∈ a.functionEdges.edges, e.Within a.functionGraph.functionIds
  fileKeys : a.fileEdges.keys.Nodup
  functionKeys : a.functionEdges.keys.Nodup

theorem ofAnalyses_linked (analyses : List FileAnalysis) (r : Resolver) (scanned : List String)
    (label : String) : (ofAnalyses analyses r scanned label).Linked where
  fileEnds := by
    refine EdgeStore.upsertAll_all Edge.Within.of_completes (by simp) fun e he => ?_
    obtain ⟨hsource, htarget⟩ := importEdges_ends he
    exact ⟨(mem_idsOfKind_file analyses r scanned label).mpr hsource,
      (mem_idsOfKind_file analyses r scanned label).mpr htarget⟩
  functionEnds := by
    rw [functionIds_eq]
    exact EdgeStore.upsertAll_all Edge.Within.of_completes (by simp) fun e he => callEdges_ends he
  fileKeys := EdgeStore.upsertAll_keys_nodup _ List.nodup_nil
  functionKeys := EdgeStore.upsertAll_keys_nodup _ List.nodup_nil

end Assembly

end CodeAtlas
