import CodeAtlas.Proofs.CallEdges
import CodeAtlas.Proofs.ExportIndex
import CodeAtlas.Proofs.ExportNames

/-!
# Calls of exported declarations

When the call of an imported name reaches the declaration that a module exports under the name
(`importedCall_reaches_iff`). A declaration can be exported under several names, but only the first
of them is indexed; the others are lost unless the first is the default.
-/

namespace CodeAtlas.Script

/-! ## Calls outside of functions -/

/-- Outside of functions the site calls a name that is bound to the specifier there. -/
structure CallsImport (path : String) (root : Tree) (s : Site) (spec : Specifier)
    (b : ImportBinding) : Prop where
  kind : s.kind = .callExpression
  outside : s.enclosingFunction? = none
  callee : ∃ t, s.tree.child? .callee = some t ∧ t.kind = .identifier ∧ t.text = spec.localName
  free : s.locallyBound spec.localName = false
  named : spec.binding ≠ .wholeModule
  bound : ∃ pre post, root.sites = pre ++ s :: post ∧
    (pre.foldl Walk.visit (Walk.start path root)).boundImport? spec.localName = some (spec, b)

namespace Walk

theorem visit_eq_addCall {path : String} {root : Tree} {s : Site} {spec : Specifier} {b : ImportBinding}
    (h : CallsImport path root s spec b) (hload : spec.localName ≠ "require") {w : Walk}
    (hbound : w.boundImport? spec.localName = some (spec, b)) : w.visit s = w.addCall s spec b := by
  obtain ⟨t, hcallee, hidentifier, hname⟩ := h.callee
  have hrequire : ¬ (spec.localName == "require" && !s.locallyBound spec.localName) = true := by
    simp [hload]
  have hcalled : ¬ (s.locallyBound spec.localName || spec.binding == .wholeModule) = true := by
    simp [h.free, h.named]
  simp only [visit, h.kind, visitCall, hcallee, hidentifier, hname, visitNamedCall]
  rw [if_neg hrequire, hbound]
  simp only
  rw [if_neg hcalled]

theorem Step.calls_mono {s : Site} {w w' : Walk} (h : Step s w w') {c : CallSite} (hc : c ∈ w.calls) :
    c ∈ w'.calls := by
  cases h with
  | call spec b =>
    obtain ⟨before, hbefore⟩ := w.beforeCall_eq s
    rw [addCall_def, charge_fst, hbefore]
    exact List.mem_append_left _ hc
  | _ => exact hc

theorem foldl_visit_calls_mono (sites : List Site) {c : CallSite} :
    ∀ w : Walk, c ∈ w.calls → c ∈ (sites.foldl visit w).calls := by
  induction sites with
  | nil => intro w hc; exact hc
  | cons s sites ih =>
    intro w hc
    exact ih _ ((visit_step w s).calls_mono hc)

theorem Recorded.beforeCall_isModule {sites : List Site} {w : Walk} (h : Recorded sites w) {s : Site}
    {e : Entry} (he : e ∈ (w.beforeCall s).entries) (hsite : e.site = none) : e.IsModule w.path := by
  obtain ⟨added, hentries, hadded⟩ := beforeCall_entries w s
  rw [hentries] at he
  rcases List.mem_append.mp he with he | he
  · exact h.others e he hsite
  · exact hadded e he

/-- The call is charged to the module, unless it is one of `require`, which loads a module. -/
theorem callsImport_mem_calls_iff {path : String} {root : Tree} {s : Site} {spec : Specifier}
    {b : ImportBinding} (h : CallsImport path root s spec b) :
    { caller := moduleId path, localName := spec.localName, importedName := some spec.importedName
      source := some b.source : CallSite } ∈ (walkModule path root).calls ↔
      spec.localName ≠ "require" := by
  refine ⟨fun hc => ((walkModule_coherent path root).calls _ hc).name, fun hload => ?_⟩
  obtain ⟨pre, post, hsplit, hbound⟩ := h.bound
  have hrecorded := (visited_progressed path hsplit).recorded
  have hpath := visited_path path hsplit
  generalize hw : pre.foldl visit (start path root) = w at hbound hrecorded hpath
  obtain ⟨e, he⟩ := beforeCall_find? (w := w) (s := s) fun i hi => by
    rw [h.outside] at hi
    cases hi
  have hsite : e.site = none := by
    have := List.find?_some he
    simpa [h.outside] using this
  have hcaller : e.record.id = moduleId path := by
    rw [← hpath]
    exact (hrecorded.beforeCall_isModule (List.mem_of_find?_eq_some he) hsite).id
  refine finish_induction (P := fun v => _ ∈ v.calls) ?_ ?_
  · rw [hsplit, List.foldl_append, List.foldl_cons, hw, visit_eq_addCall h hload hbound]
    refine foldl_visit_calls_mono post _ ?_
    rw [addCall_calls w s spec b he, hcaller]
    exact List.mem_append_right _ List.mem_cons_self
  · intro v v' request hstep hc
    cases hstep <;> exact hc

end Walk

end CodeAtlas.Script

namespace CodeAtlas.Assembly
open Script Walk

/-! ## What the name of a declaration leads to -/

theorem exportedAt_resolveImports {r : Resolver} {analyses : List FileAnalysis} {key : String}
    {p : Place} : ExportedAt (analyses.map (resolveImports r)) key p ↔ ExportedAt analyses key p := by
  simp only [ExportedAt, List.getElem?_map, Option.map_eq_some_iff]
  constructor
  · rintro ⟨_, f, ⟨a, ha, rfl⟩, hf, hk⟩
    exact ⟨a, f, ha, hf, hk⟩
  · rintro ⟨a, f, ha, hf, hk⟩
    exact ⟨_, f, ⟨a, ha, rfl⟩, hf, hk⟩

theorem exportKey?_eq_some_iff {f : FunctionRecord} {names : List String}
    (has : f.exportedAs = names.head?) (hexported : f.exported = !names.isEmpty) (path name : String) :
    f.exportKey? path = some (exportKey path name) ↔ name ≠ "" ∧ names.head? = some name := by
  unfold FunctionRecord.exportKey?
  rw [has, hexported]
  cases names with
  | nil => simp
  | cons n names =>
    by_cases hn : n = ""
    · subst hn
      constructor
      · intro h
        simp at h
      · rintro ⟨hne, h⟩
        exact absurd (Option.some.inj h).symm hne
    · have hkey : exportKey path n = exportKey path name ↔ n = name := String.append_right_inj _
      simp only [List.head?_cons, List.isEmpty_cons, Bool.not_false, Bool.true_and, Option.some.injEq]
      rw [if_pos (by simpa using hn), Option.some.injEq, hkey]
      constructor
      · rintro rfl
        exact ⟨hn, rfl⟩
      · exact fun h => h.2

/-- The name is the first under which the declaration at the place is exported, and no record before
it is exported under the name. -/
def Leads (analyses : List FileAnalysis) (path : String) (names : List String) (p : Place)
    (name : String) : Prop :=
  (name ≠ "" ∧ names.head? = some name) ∧
    ∀ q, ExportedAt analyses (exportKey path name) q → ¬ q.Before p

/-- What a call of an imported name needs to reach a declaration of the module at the path: the name
leads to it, or no record has the name and the module passes the name on to it, or nothing at all
has the name and the default leads to it. -/
def Reached (r : Resolver) (analyses : List FileAnalysis) (path : String) (names : List String)
    (p : Place) (name : String) : Prop :=
  let resolved := analyses.map (resolveImports r)
  let passedOn := reexported? (.ofAnalyses resolved) resolved (maxReexportSteps - 1) path name
  Leads analyses path names p name ∨
    (∀ q, ¬ ExportedAt analyses (exportKey path name) q) ∧
      (passedOn = some p ∨ passedOn = none ∧ Leads analyses path names p "default")

section
variable {analyses : List FileAnalysis} {file slot : Nat} {path content : String} {root : Tree}
  {d : Dialect} {names : List String} {e : Entry} {i : Nat}
  (hfile : analyses[file]? = some ((walkModule path root).analysis d content))
  (hslot : (walkModule path root).entries[slot]? = some e) (he : Marked i names e)
include hfile hslot he

theorem find?_eq_some_iff_leads (r : Resolver) (name : String) :
    (ExportIndex.ofAnalyses (analyses.map (resolveImports r))).find? path name = some ⟨file, slot⟩ ↔
      Leads analyses path names ⟨file, slot⟩ name := by
  have hpath : ((walkModule path root).analysis d content).path = path := walkModule_path path root
  have hrecord : ((walkModule path root).analysis d content).functions[slot]? = some e.record := by
    simp [Walk.analysis, hslot]
  have hexported : ExportedAt analyses (exportKey path name) ⟨file, slot⟩ ↔
      name ≠ "" ∧ names.head? = some name := by
    rw [← exportKey?_eq_some_iff he.exportedAs he.exported path]
    constructor
    · rintro ⟨a, f, ha, hf, hk⟩
      rw [hfile, Option.some.injEq] at ha
      subst ha
      rw [hrecord, Option.some.injEq] at hf
      subst hf
      rwa [hpath] at hk
    · intro hk
      exact ⟨_, _, hfile, hrecord, by rwa [hpath]⟩
  rw [ExportIndex.find?_ofAnalyses_eq_some, Leads, exportedAt_resolveImports, hexported]
  simp only [exportedAt_resolveImports]

theorem means_iff_reached {r : Resolver} {path' name source : String}
    (hresolve : r.resolve path' source = some path) (c : CallSite)
    (hsource : c.source = some source) (hname : c.importedName = some name) :
    Means r (.ofAnalyses (analyses.map (resolveImports r))) (analyses.map (resolveImports r)) path' c
      ⟨file, slot⟩ ↔ Reached r analyses path names ⟨file, slot⟩ name := by
  have hleads := find?_eq_some_iff_leads hfile hslot he r
  unfold Reached
  generalize hresolved : analyses.map (resolveImports r) = resolved at hleads
  have hnone : (ExportIndex.ofAnalyses resolved).find? path name = none ↔
      ∀ q, ¬ ExportedAt analyses (exportKey path name) q := by
    rw [← hresolved, ExportIndex.find?_ofAnalyses_eq_none]
    simp only [exportedAt_resolveImports]
  have hmeans : Means r (.ofAnalyses resolved) resolved path' c ⟨file, slot⟩ ↔
      calledPlace? (.ofAnalyses resolved) resolved path name = some ⟨file, slot⟩ := by
    rw [calledPlace?_eq_some_iff, Means, hsource, hname]
    constructor
    · rintro ⟨_, _, target, ⟨⟩, ⟨⟩, htarget, hplace⟩
      rw [hresolve, Option.some.injEq] at htarget
      subst htarget
      exact hplace
    · exact fun hplace => ⟨source, name, path, rfl, rfl, hresolve, hplace⟩
  have hlookup : lookupExport (.ofAnalyses resolved) resolved maxReexportSteps path name =
      ((ExportIndex.ofAnalyses resolved).find? path name).or
        (reexported? (.ofAnalyses resolved) resolved (maxReexportSteps - 1) path name) :=
    lookupExport_succ ..
  rw [hmeans, calledPlace?_eq_some_iff, hlookup, Option.or_eq_some_iff, Option.or_eq_none_iff, ← hleads,
    ← hleads, ← hnone]
  constructor
  · rintro ((h | ⟨hfind, h⟩) | ⟨⟨hfind, hpassed⟩, h⟩)
    · exact .inl h
    · exact .inr ⟨hfind, .inl h⟩
    · exact .inr ⟨hfind, .inr ⟨hpassed, h⟩⟩
  · rintro (h | ⟨hfind, h | ⟨hpassed, h⟩⟩)
    · exact .inl (.inl h)
    · exact .inl (.inr ⟨hfind, h⟩)
    · exact .inr ⟨⟨hfind, hpassed⟩, h⟩

end

/-- A call of an imported name outside of functions, where the import leads to a module, is recorded
unless it reads as a call that loads a module. It means a top-level declaration of the module exactly
if `Reached` holds of the imported name and the declaration; then the function graph has the edge from
the calling module to the declaration. -/
theorem importedCall_reaches_iff {analyses : List FileAnalysis} {file : Nat}
    {path path' content content' : String} {root root' : Tree} {d d' : Dialect} (r : Resolver)
    (scanned : List String) (label : String)
    (hfile : analyses[file]? = some ((walkModule path root).analysis d content))
    (hcaller : (walkModule path' root').analysis d' content' ∈ analyses) {s : Site}
    (hs : s ∈ root.sites) (hdeclared : s.isDeclared = true) (htop : s.isTopLevel = true) {call : Site}
    {spec : Specifier} {b : ImportBinding} (hcall : CallsImport path' root' call spec b)
    (hresolve : r.resolve path' b.source = some path) :
    let assembly := ofAnalyses analyses r scanned label
    let c : CallSite :=
      ⟨moduleId path', spec.localName, some spec.importedName, some b.source, none⟩
    ∃ slot e, (walkModule path root).EntryOf s slot e ∧
      (c ∈ (walkModule path' root').calls ↔ spec.localName ≠ "require") ∧
      (Means r assembly.exports (analyses.map (resolveImports r)) path' c ⟨file, slot⟩ ↔
        Reached r analyses path (root.exportNames s) ⟨file, slot⟩ spec.importedName) ∧
      (c ∈ (walkModule path' root').calls →
        Reached r analyses path (root.exportNames s) ⟨file, slot⟩ spec.importedName →
        edgeKey (moduleId path') e.record.id ∈ assembly.functionEdges.keys) := by
  intro assembly c
  obtain ⟨slot, e, hentry, he⟩ := walkModule_exported path hs hdeclared htop
  have hiff := means_iff_reached hfile hentry.entry he hresolve c rfl rfl
  refine ⟨slot, e, hentry, callsImport_mem_calls_iff hcall, hiff, fun hc hreached => ?_⟩
  have hagree := agrees_of_coherent (walkModule_coherent path' root') r d' content' hc
  have hrecord : recordAt? (analyses.map (resolveImports r)) ⟨file, slot⟩ = some e.record := by
    simp [recordAt?, hfile, resolveImports, Walk.analysis, hentry.entry]
  have hmeans := hiff.mpr hreached
  rw [← walkModule_path path' root'] at hmeans
  exact mem_functionEdges_keys_of_means hcaller hc hagree hmeans hrecord

/-! ## A declaration with two names -/

def leaf (kind : Kind) (own : String) (role : Option Role) : Tree :=
  { kind, role, span := default, own }

def phrase (kind : Kind) (children : List Tree) (role : Option Role) : Tree :=
  { kind, role, span := default, children }

def declaredFunction : Tree :=
  phrase .functionDeclaration [leaf .identifier "f" (some .name)] none

def exportOfFunction : Tree :=
  phrase .exportStatement [leaf .token "export" none, declaredFunction] none

/-- The function `f`, exported where it stands and as `g` by a clause, without blanks and marks. -/
def twiceExported : Tree :=
  phrase .program [exportOfFunction,
    phrase .exportStatement [leaf .token "export" none,
      phrase .exportClause [phrase .exportSpecifier [leaf .identifier "f" (some .name),
        leaf .identifier "g" (some .aliasName)] none] none] none] none

def twiceExportedSite : Site :=
  ⟨3, declaredFunction, [(1, exportOfFunction), (0, twiceExported)]⟩

def callOf (name : String) : Tree :=
  phrase .callExpression [leaf .identifier name (some .callee)] none

def importing (name : String) : Tree :=
  phrase .program [
    phrase .importStatement [
      phrase .importClause [phrase .namedImports [
        phrase .importSpecifier [leaf .identifier name (some .name)] none] none] none,
      phrase .string [leaf .token "'" none, leaf .stringText "./m" none, leaf .token "'" none]
        (some .source)] none,
    phrase .expressionStatement [callOf name] none] none

def importingCall (name : String) : Site :=
  ⟨11, callOf name, [(10, phrase .expressionStatement [callOf name] none), (0, importing name)]⟩

def twoModules (name : String) : List FileAnalysis :=
  [(walkModule "m.ts" twiceExported).analysis .typescript "",
    (walkModule "a.ts" (importing name)).analysis .typescript ""]

def twoFiles : Resolver := ⟨["m.ts", "a.ts"], []⟩

theorem importing_callsImport {name : String} (h : name = "f" ∨ name = "g") :
    CallsImport "a.ts" (importing name) (importingCall name) ⟨name, name, .named, none⟩
      { source := "./m", specifiers := [⟨name, name, .named, none⟩] } := by
  rcases h with rfl | rfl
  · refine ⟨rfl, rfl, ⟨_, rfl, rfl, by decide +kernel⟩, by decide +kernel, by decide,
      (importing "f").sites.take 11, (importing "f").sites.drop 12, rfl, by decide +kernel⟩
  · refine ⟨rfl, rfl, ⟨_, rfl, rfl, by decide +kernel⟩, by decide +kernel, by decide,
      (importing "g").sites.take 11, (importing "g").sites.drop 12, rfl, by decide +kernel⟩

/-- The first name of the declaration is reached. -/
theorem importedCall_of_first_name : twiceExportedSite ∈ twiceExported.sites ∧
    twiceExported.exportNames twiceExportedSite = ["f", "g"] ∧
    twoFiles.resolve "a.ts" "./m" = some "m.ts" ∧
    edgeKey (moduleId "a.ts") "m.ts::f" ∈
      (ofAnalyses (twoModules "f") twoFiles [] ".").functionEdges.keys := by
  have hsite : twiceExportedSite ∈ twiceExported.sites := List.mem_of_getElem? (i := 3) rfl
  have hnames : twiceExported.exportNames twiceExportedSite = ["f", "g"] := by decide +kernel
  have hresolve : twoFiles.resolve "a.ts" "./m" = some "m.ts" := by decide +kernel
  refine ⟨hsite, hnames, hresolve, ?_⟩
  have hfile : (twoModules "f")[0]? =
      some ((walkModule "m.ts" twiceExported).analysis .typescript "") := rfl
  have hcaller : (walkModule "a.ts" (importing "f")).analysis .typescript "" ∈ twoModules "f" :=
    List.mem_cons_of_mem _ List.mem_cons_self
  obtain ⟨slot, e, hentry, hrecorded, -, hedge⟩ :=
    importedCall_reaches_iff twoFiles [] "." hfile hcaller hsite (by decide) (by decide)
      (importing_callsImport (.inl rfl)) hresolve
  have hids : (walkModule "m.ts" twiceExported).entries.map (·.record.id) = ["m.ts::f"] := by
    decide +kernel
  have hid : ["m.ts::f"][slot]? = some e.record.id := by
    rw [← hids, List.getElem?_map, hentry.entry, Option.map_some]
  have hzero : slot = 0 := by
    have hlt := (List.getElem?_eq_some_iff.mp hid).1
    simpa using hlt
  subst hzero
  rw [← Option.some.inj hid] at hedge
  refine hedge (hrecorded.mpr (by decide)) (.inl ⟨⟨by decide, by rw [hnames]; rfl⟩, fun q _ hq => ?_⟩)
  rcases hq with hq | ⟨-, hq⟩
  · exact Nat.not_lt_zero _ hq
  · exact Nat.not_lt_zero _ hq

/-- The second name is lost: the graph has no edge at all. -/
theorem importedCall_of_second_name_lost : twiceExportedSite ∈ twiceExported.sites ∧
    "g" ∈ twiceExported.exportNames twiceExportedSite ∧
    CallsImport "a.ts" (importing "g") (importingCall "g") ⟨"g", "g", .named, none⟩
      { source := "./m", specifiers := [⟨"g", "g", .named, none⟩] } ∧
    twoFiles.resolve "a.ts" "./m" = some "m.ts" ∧
    (ofAnalyses (twoModules "g") twoFiles [] ".").functionEdges.keys = [] := by
  refine ⟨List.mem_of_getElem? (i := 3) rfl, ?_, importing_callsImport (.inr rfl), ?_, ?_⟩
  · decide +kernel
  · decide +kernel
  · decide +kernel

end CodeAtlas.Assembly
