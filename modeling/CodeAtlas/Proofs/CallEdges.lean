import CodeAtlas.Analyze
import CodeAtlas.Proofs.CallBindings

/-!
# The edges of calls

Assembly ties a call to the specifier that extraction bound it to (`Agrees`), so the edges of the
function graph are those of calls and the records they mean (`functionEdges_of_bound_calls`).
-/

namespace CodeAtlas.Assembly
open Script

/-! ## Resolved imports -/

theorem importTarget_eq (r : Resolver) (path : String) (b : ImportBinding) :
    importTarget r path b = r.resolve path b.source := by
  unfold importTarget Resolver.resolve
  split <;> rfl

def tie (target : Option String) (s : Specifier) : Specifier :=
  match target with
  | some t => { s with target := some t }
  | none => s

theorem tie_target {s : Specifier} (h : s.target = none) (target : Option String) :
    (tie target s).target = target := by
  cases target with
  | some t => rfl
  | none => exact h

theorem bindTarget_eq (r : Resolver) (path : String) (b : ImportBinding) : ∃ target,
    bindTarget r path b =
      { b with target, specifiers := b.specifiers.map (tie (r.resolve path b.source)) } := by
  unfold bindTarget
  rw [importTarget_eq]
  cases r.resolve path b.source with
  | some t => exact ⟨some t, rfl⟩
  | none =>
    have hmap : b.specifiers.map (tie none) = b.specifiers := List.map_id _
    rw [hmap]
    exact ⟨b.target, rfl⟩

theorem importedNames_bindTarget (r : Resolver) (path : String) (imports : List ImportBinding) :
    importedNames (imports.map (bindTarget r path)) = (importedNames imports).map fun x =>
      (tie (r.resolve path x.2.source) x.1, bindTarget r path x.2) := by
  induction imports with
  | nil => rfl
  | cons b imports ih =>
    obtain ⟨target, hb⟩ := bindTarget_eq r path b
    have hone : importedNames [bindTarget r path b] = (importedNames [b]).map fun x =>
        (tie (r.resolve path x.2.source) x.1, bindTarget r path x.2) := by
      rw [importedNames_singleton, importedNames_singleton, hb]
      by_cases h : (!b.reexport && b.moduleLevel) = true
      · rw [if_pos h, if_pos h, List.map_map, List.map_map]
        refine List.map_congr_left fun s _ => ?_
        simp only [Function.comp_apply, hb]
      · rw [if_neg h, if_neg h, List.map_nil]
    rw [List.map_cons, ← List.singleton_append, importedNames_append, hone, ih, ← List.map_append,
      ← importedNames_append, List.singleton_append]

/-! ## The specifier that a call finds -/

theorem calledSpecifier?_eq (a : FileAnalysis) (c : CallSite) : calledSpecifier? a c =
    ((importedNames a.imports).find? fun x => c.source == some x.2.source &&
      (x.1.binding != .wholeModule && x.1.localName == c.localName)).map (·.1) := by
  unfold calledSpecifier?
  induction a.imports with
  | nil => rfl
  | cons b imports ih =>
    rw [← List.singleton_append, importedNames_append, List.find?_append, List.filter_append,
      List.findSome?_append, ih, Option.map_or, importedNames_singleton]
    congr 1
    by_cases hlevel : (!b.reexport && b.moduleLevel) = true
    · by_cases hsource : c.source = some b.source
      · simp [hlevel, hsource, List.find?_map, Function.comp_def]
      · rw [if_pos hlevel, List.find?_eq_none.mpr (by simp [hsource])]
        simp [hsource]
    · simp [hlevel]

/-- The first element of a kind is also the first of a narrower kind that it belongs to. -/
theorem find?_of_imp {α : Type} {p q : α → Bool} {xs : List α} {x : α} (h : xs.find? p = some x)
    (hq : q x = true) (himp : ∀ y, q y = true → p y = true) : xs.find? q = some x := by
  obtain ⟨-, before, after, rfl, hbefore⟩ := List.find?_eq_some_iff_append.mp h
  refine List.find?_eq_some_iff_append.mpr ⟨hq, before, after, rfl, fun y hy => ?_⟩
  have hp := hbefore y hy
  cases hqy : q y with
  | false => rfl
  | true => rw [himp y hqy] at hp; exact hp

theorem calledSpecifier?_resolveImports {r : Resolver} {a : FileAnalysis} {c : CallSite}
    {s : Specifier} {b : ImportBinding}
    (hfind : (importedNames a.imports).find? (·.1.localName == c.localName) = some (s, b))
    (hbinding : s.binding ≠ .wholeModule) (hsource : c.source = some b.source) :
    calledSpecifier? (resolveImports r a) c = some (tie (r.resolve a.path b.source) s) := by
  have hnames : ∀ (t : Option String) (x : Specifier), (tie t x).localName = x.localName ∧
      (tie t x).binding = x.binding := by
    intro t x
    cases t <;> exact ⟨rfl, rfl⟩
  obtain ⟨target, hb⟩ := bindTarget_eq r a.path b
  have hlocal : s.localName = c.localName := by simpa using List.find?_some hfind
  have hresolved : (importedNames (resolveImports r a).imports).find? (·.1.localName == c.localName) =
      some (tie (r.resolve a.path b.source) s, bindTarget r a.path b) := by
    rw [resolveImports, importedNames_bindTarget, List.find?_map]
    simp only [Function.comp_def, hnames]
    rw [hfind, Option.map_some]
  rw [calledSpecifier?_eq, find?_of_imp hresolved, Option.map_some]
  · simp [hnames, hb, hsource, hbinding, hlocal]
  · intro y hy
    simp only [Bool.and_eq_true] at hy
    exact hy.2.2

/-! ## Calls of extracted files -/

/-- The caller is a shown record of the file, and the specifier that assembly finds for the call has
the imported name of the call and leads where its source leads. -/
structure Agrees (r : Resolver) (a : FileAnalysis) (c : CallSite) : Prop where
  caller : ∃ f ∈ a.functions, f.id = c.caller ∧ f.included = true
  specifier : ∃ s source, calledSpecifier? (resolveImports r a) c = some s ∧
    c.source = some source ∧ c.importedName = some s.importedName ∧
    s.target = r.resolve a.path source

theorem agrees_of_coherent {w : Walk} (h : w.Coherent) (r : Resolver) (d : Dialect) (content : String)
    {c : CallSite} (hc : c ∈ w.calls) : Agrees r (w.analysis d content) c := by
  obtain ⟨-, hcaller, s, b, hbound, hbinding, hname, hsource⟩ := h.calls c hc
  have hfind : (importedNames w.imports).find? (·.1.localName == c.localName) = some (s, b) := by
    rw [← h.bound]
    exact hbound
  constructor
  · obtain ⟨e, he, hid, hincluded⟩ := hcaller
    exact ⟨e.record, List.mem_map_of_mem he, hid, hincluded⟩
  · refine ⟨_, b.source, calledSpecifier?_resolveImports hfind hbinding hsource, hsource, ?_, ?_⟩
    · rw [hname]
      cases r.resolve (w.analysis d content).path b.source <;> rfl
    · exact tie_target (h.untied _ (List.mem_of_find?_eq_some hbound)) _

theorem read_agrees {catalog : Catalog} {path content : String} {a : FileAnalysis}
    (h : catalog.read path content = .analysed a) (r : Resolver) {c : CallSite} (hc : c ∈ a.calls) :
    Agrees r a c := by
  unfold Catalog.read at h
  split at h
  · split at h
    · rename_i d hd
      unfold Catalog.readScript at h
      split at h
      · rename_i b hb
        cases h
        obtain ⟨root, -, rfl⟩ := Option.map_eq_some_iff.mp hb
        exact agrees_of_coherent (Walk.walkModule_coherent path root) r d content hc
      · cases h
    · cases h
  · split at h
    · split at h
      · cases h
      -- Patterns find no calls.
      · cases h
        cases hc
    · cases h
  · cases h

/-! ## From calls to edges -/

theorem callerSlot?_some {a : FileAnalysis} {c : CallSite} {slot : Nat}
    (h : callerSlot? a c = some slot) : ∃ f, a.functions[slot]? = some f ∧ f.id = c.caller := by
  obtain ⟨⟨f, n⟩, hf, rfl⟩ := Option.map_eq_some_iff.mp h
  have hmem := List.mem_reverse.mp (List.mem_of_find?_eq_some hf)
  exact ⟨f, List.mk_mem_zipIdx_iff_getElem?.mp hmem, by simpa using List.find?_some hf⟩

theorem callerSlot?_isSome {a : FileAnalysis} {c : CallSite} (h : ∃ f ∈ a.functions, f.id = c.caller) :
    ∃ slot, callerSlot? a c = some slot := by
  obtain ⟨f, hf, hid⟩ := h
  obtain ⟨n, hn⟩ := List.getElem?_of_mem hf
  rw [← Option.isSome_iff_exists, callerSlot?, Option.isSome_map, List.find?_isSome]
  exact ⟨(f, n), List.mem_reverse.mpr (List.mk_mem_zipIdx_iff_getElem?.mpr hn), by simp [hid]⟩

/-- The place of the record that a call in a file means: what the imported name stands for in the
file that the call's source leads to, or else what that file exports as its default. -/
def Means (r : Resolver) (exports : ExportIndex) (analyses : List FileAnalysis) (path : String)
    (c : CallSite) (place : Place) : Prop :=
  ∃ source name target, c.source = some source ∧ c.importedName = some name ∧
    r.resolve path source = some target ∧
    (lookupExport exports analyses maxReexportSteps target name = some place ∨
      lookupExport exports analyses maxReexportSteps target name = none ∧
        exports.find? target "default" = some place)

theorem calledPlace?_eq_some_iff {exports : ExportIndex} {analyses : List FileAnalysis}
    {target name : String} {place : Place} : calledPlace? exports analyses target name = some place ↔
      lookupExport exports analyses maxReexportSteps target name = some place ∨
        lookupExport exports analyses maxReexportSteps target name = none ∧
          exports.find? target "default" = some place := by
  rw [calledPlace?, Option.or_eq_some_iff]

section
variable {r : Resolver} {exports : ExportIndex} {analyses : List FileAnalysis}

theorem link?_eq {a : FileAnalysis} {c : CallSite} {s : Specifier} (file : Nat)
    (hs : calledSpecifier? a c = some s) (hname : c.importedName = some s.importedName) :
    link? exports analyses file a c = s.target.bind fun target =>
      (calledPlace? exports analyses target s.importedName).bind fun callee =>
        (callerSlot? a c).map fun slot => ⟨⟨file, slot⟩, callee, target⟩ := by
  have hcalled : (c.importedName.filter (!·.isEmpty)).getD s.importedName = s.importedName := by
    rw [hname]
    by_cases h : s.importedName.isEmpty = true <;> simp [Option.filter, h]
  simp only [link?, hs, hcalled, Option.bind_eq_bind, Option.bind_some, Option.pure_def,
    Option.map_eq_bind, Function.comp_def]

theorem callEdge?_link? {a : FileAnalysis} {c : CallSite} {file : Nat} (h : Agrees r a c)
    (hfile : analyses[file]? = some (resolveImports r a)) {e : Edge} :
    (link? exports analyses file (resolveImports r a) c).bind (callEdge? analyses) = some e ↔
      ∃ place t, Means r exports analyses a.path c place ∧ recordAt? analyses place = some t ∧
        e = { source := c.caller, target := t.id, kind := "invokes" } := by
  obtain ⟨s, source, hs, hsource, hname, htarget⟩ := h.specifier
  have hedge : ∀ slot callee target, callerSlot? (resolveImports r a) c = some slot →
      callEdge? analyses ⟨⟨file, slot⟩, callee, target⟩ = (recordAt? analyses callee).map fun t =>
        { source := c.caller, target := t.id, kind := "invokes" } := by
    intro slot callee target hslot
    obtain ⟨f, hf, hid⟩ := callerSlot?_some hslot
    have hrecord : recordAt? analyses ⟨file, slot⟩ = some f := by
      rw [recordAt?, hfile]
      exact hf
    simp only [callEdge?, hrecord, hid, Option.bind_eq_bind, Option.bind_some, Option.pure_def,
      Option.map_eq_bind, Function.comp_def]
  rw [link?_eq file hs hname, htarget]
  constructor
  · intro hlink
    simp only [Option.bind_eq_some_iff, Option.map_eq_some_iff] at hlink
    obtain ⟨l, ⟨target, hresolve, place, hplace, slot, hslot, rfl⟩, he⟩ := hlink
    rw [hedge slot place target hslot] at he
    obtain ⟨t, ht, rfl⟩ := Option.map_eq_some_iff.mp he
    exact ⟨place, t, ⟨source, s.importedName, target, hsource, hname, hresolve,
      calledPlace?_eq_some_iff.mp hplace⟩, ht, rfl⟩
  · rintro ⟨place, t, ⟨source', name, target, hsource', hname', hresolve, hplace⟩, ht, rfl⟩
    rw [hsource, Option.some.injEq] at hsource'
    rw [hname, Option.some.injEq] at hname'
    subst hsource' hname'
    obtain ⟨f, hf, hid, -⟩ := h.caller
    obtain ⟨slot, hslot⟩ := callerSlot?_isSome (a := resolveImports r a) (c := c) ⟨f, hf, hid⟩
    rw [hresolve, Option.bind_some, calledPlace?_eq_some_iff.mpr hplace, Option.bind_some, hslot,
      Option.map_some, Option.bind_some, hedge slot place target hslot, ht, Option.map_some]

end

theorem mem_links {exports : ExportIndex} {analyses : List FileAnalysis} {l : Link} :
    l ∈ links exports analyses ↔ ∃ a file, analyses[file]? = some a ∧
      ∃ c ∈ a.calls, link? exports analyses file a c = some l := by
  simp only [links, List.mem_flatMap, List.mem_filterMap, Prod.exists, List.mk_mem_zipIdx_iff_getElem?]

section
variable {analyses : List FileAnalysis} {r : Resolver} {scanned : List String} {label : String}

theorem mem_functionEdges_keys_iff_link {key : String} :
    key ∈ (ofAnalyses analyses r scanned label).functionEdges.keys ↔
      ∃ l ∈ links (ofAnalyses analyses r scanned label).exports (analyses.map (resolveImports r)),
        ∃ e, callEdge? (analyses.map (resolveImports r)) l = some e ∧ e.key = key := by
  refine (EdgeStore.mem_upsertAll_keys _ key {}).trans ?_
  simp only [List.mem_map, List.mem_filterMap]
  constructor
  · rintro (h | ⟨e, ⟨l, hl, he⟩, hkey⟩)
    · cases h
    · exact ⟨l, hl, e, he, hkey⟩
  · rintro ⟨l, hl, e, he, hkey⟩
    exact .inr ⟨e, ⟨l, hl, he⟩, hkey⟩

theorem mem_functionEdges_keys_of_means {a : FileAnalysis} (ha : a ∈ analyses) {c : CallSite}
    (hc : c ∈ a.calls) (h : Agrees r a c) {place : Place} {t : FunctionRecord}
    (hmeans : Means r (ofAnalyses analyses r scanned label).exports (analyses.map (resolveImports r))
      a.path c place)
    (ht : recordAt? (analyses.map (resolveImports r)) place = some t) :
    edgeKey c.caller t.id ∈ (ofAnalyses analyses r scanned label).functionEdges.keys := by
  obtain ⟨file, hfile⟩ := List.getElem?_of_mem (List.mem_map_of_mem (f := resolveImports r) ha)
  obtain ⟨l, hlink, he⟩ := Option.bind_eq_some_iff.mp
    ((callEdge?_link? h hfile).mpr ⟨place, t, hmeans, ht, rfl⟩)
  exact mem_functionEdges_keys_iff_link.mpr ⟨l, mem_links.mpr ⟨_, file, hfile, c, hc, hlink⟩, _, he, rfl⟩

theorem means_of_mem_functionEdges_keys (h : ∀ a ∈ analyses, ∀ c ∈ a.calls, Agrees r a c) {key : String}
    (hkey : key ∈ (ofAnalyses analyses r scanned label).functionEdges.keys) :
    ∃ a ∈ analyses, ∃ c ∈ a.calls, ∃ place t,
      Means r (ofAnalyses analyses r scanned label).exports (analyses.map (resolveImports r)) a.path c
        place ∧
      recordAt? (analyses.map (resolveImports r)) place = some t ∧ key = edgeKey c.caller t.id := by
  obtain ⟨l, hl, e, he, rfl⟩ := mem_functionEdges_keys_iff_link.mp hkey
  obtain ⟨b, file, hfile, c, hc, hlink⟩ := mem_links.mp hl
  obtain ⟨a, ha, rfl⟩ := List.mem_map.mp (List.mem_of_getElem? hfile)
  obtain ⟨place, t, hmeans, ht, rfl⟩ :=
    (callEdge?_link? (h a ha c hc) hfile).mp (Option.bind_eq_some_iff.mpr ⟨l, hlink, he⟩)
  exact ⟨a, ha, c, hc, place, t, hmeans, ht, rfl⟩

end

end CodeAtlas.Assembly

namespace CodeAtlas.AnalysisPlan
open Assembly

theorem analyses_agree {p : AnalysisPlan} {files : FileMap} {a : FileAnalysis}
    (ha : a ∈ analyses (p.readings files)) (r : Resolver) {c : CallSite} (hc : c ∈ a.calls) :
    Agrees r a c := by
  obtain ⟨⟨path, reading⟩, hreading, hanalysed⟩ := List.mem_filterMap.mp ha
  obtain ⟨⟨_, content⟩, -, heq⟩ := List.mem_map.mp hreading
  cases heq
  split at hanalysed
  · rename_i b hread
    cases hanalysed
    exact read_agrees (Prod.mk.inj hread).2 r hc
  · cases hanalysed

/-- Extraction and assembly agree on what calls are bound to, so the function graph has an edge for
exactly the calls and the records they mean. -/
theorem functionEdges_of_bound_calls (p : AnalysisPlan) (files : FileMap) (r : Resolver)
    (scanned : List String) (label : String) :
    let as := analyses (p.readings files)
    let resolved := as.map (resolveImports r)
    let assembly := ofAnalyses as r scanned label
    (∀ a ∈ as, ∀ c ∈ a.calls, Agrees r a c) ∧
    ∀ key, key ∈ assembly.functionEdges.keys ↔
      ∃ a ∈ as, ∃ c ∈ a.calls, ∃ place t, Means r assembly.exports resolved a.path c place ∧
        recordAt? resolved place = some t ∧ key = edgeKey c.caller t.id := by
  intro as resolved assembly
  have hagree : ∀ a ∈ as, ∀ c ∈ a.calls, Agrees r a c := fun a ha c hc => analyses_agree ha r hc
  refine ⟨hagree, fun key => ⟨means_of_mem_functionEdges_keys hagree, ?_⟩⟩
  rintro ⟨a, ha, c, hc, place, t, hmeans, ht, rfl⟩
  exact mem_functionEdges_keys_of_means ha hc (hagree a ha c hc) hmeans ht

end CodeAtlas.AnalysisPlan
