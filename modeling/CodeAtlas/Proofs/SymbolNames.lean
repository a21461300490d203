import CodeAtlas.Proofs.Delimited
import CodeAtlas.Proofs.Enrichment
import Mathlib.Data.List.Basic

/-!
# Which function a symbol means

A proposal names a function by the path of its file and a symbol. Ids, exported names and own names of the
shown records stand in one table, record by record, and the first entry of a name counts. So the function
that a file exports under a name is found by it unless a record listed before goes by the same name
(`symbolId?_of_exported`); an own name in front takes the place of an exported name behind it
(`symbolId?_of_own_name_before`).
-/

namespace CodeAtlas.Assembly

/-! ## The records in the table -/

def listed (a : Assembly) : List (String × FunctionRecord) :=
  a.analyses.flatMap fun file =>
    (file.functions.filter fun f => (a.functionNodes.map (·.id)).contains f.id).map fun f =>
      (file.path, f)

inductive GoesBy (path : String) (f : FunctionRecord) : String → Prop
  | id : GoesBy path f f.id
  | exported {s : String} (h : f.exportedAs = some s) (hs : s ≠ "") : GoesBy path f (exportKey path s)
  | own : GoesBy path f (exportKey path f.displayName)

theorem mem_recordNames_iff (path : String) (f : FunctionRecord) (name : String) :
    name ∈ recordNames path f ↔ GoesBy path f name := by
  constructor
  · intro h
    simp only [recordNames, List.map_append, List.mem_cons, List.mem_append, List.map_cons,
      List.map_nil, List.not_mem_nil, or_false] at h
    rcases h with rfl | h | rfl
    · exact .id
    · obtain ⟨s, hs, rfl⟩ := List.mem_map.1 h
      obtain ⟨hs, hne⟩ := Option.filter_eq_some_iff.1 (Option.mem_toList.1 hs)
      exact .exported hs (by simpa using hne)
    · exact .own
  · intro h
    cases h with
    | id => exact List.mem_cons_self
    | exported h hs => simp [recordNames, h, hs, Option.filter]
    | own => simp [recordNames]

theorem symbols_eq (a : Assembly) : a.symbols = a.listed.flatMap fun g =>
    (recordNames g.1 g.2).map fun name => (name, g.2.id) := by
  simp only [symbols, listed, List.flatMap_assoc, List.flatMap_map]

/-- A name leads to the first record that goes by it. -/
theorem lookup_recordNames (records : List (String × FunctionRecord)) (name : String) :
    (records.flatMap fun g => (recordNames g.1 g.2).map fun n => (n, g.2.id)).lookup name =
      (records.find? fun g => (recordNames g.1 g.2).contains name).map (·.2.id) := by
  induction records with
  | nil => rfl
  | cons g records ih =>
    have hentry : ((recordNames g.1 g.2).map fun n => (n, g.2.id)).lookup name =
        if (recordNames g.1 g.2).contains name then some g.2.id else none := by
      induction recordNames g.1 g.2 with
      | nil => rfl
      | cons n names ih =>
        rw [List.map_cons, List.lookup_cons, ih, List.contains_cons]
        cases hn : name == n <;> simp
    rw [List.flatMap_cons, List.lookup_append, hentry, ih, List.find?_cons]
    cases (recordNames g.1 g.2).contains name <;> simp

section
variable (a : Assembly) (name : String)

theorem lookup_symbols : a.symbols.lookup name =
    (a.listed.find? fun g => (recordNames g.1 g.2).contains name).map (·.2.id) := by
  rw [symbols_eq, lookup_recordNames]

theorem lookup_symbols_eq_none_iff :
    a.symbols.lookup name = none ↔ ∀ g ∈ a.listed, ¬ GoesBy g.1 g.2 name := by
  simp only [lookup_symbols, Option.map_eq_none_iff, List.find?_eq_none, List.contains_iff_mem,
    mem_recordNames_iff]

end

/-! ## Records told apart by their ids -/

def allIds (analyses : List FileAnalysis) : List String :=
  analyses.flatMap fun file => file.functions.map (·.id)

theorem allIds_settleCalls (exports : ExportIndex) (analyses : List FileAnalysis) :
    allIds (settleCalls exports analyses) = allIds analyses := by
  have hfile : ∀ (fs : List FunctionRecord) (g : FunctionRecord × Nat → FunctionRecord),
      (∀ x, (g x).id = x.1.id) → (fs.zipIdx.map g).map (·.id) = fs.map (·.id) := by
    intro fs g hg
    rw [List.map_map]
    conv_rhs => rw [← List.zipIdx_map_fst 0 fs, List.map_map]
    exact List.map_congr_left fun x _ => hg x
  simp only [allIds, settleCalls, List.flatMap_map]
  conv_rhs => rw [← List.zipIdx_map_fst 0 analyses, List.flatMap_map]
  apply List.flatMap_congr
  intro x _
  exact hfile _ _ fun y => showLinked_id _ _ _

theorem allIds_ofAnalyses (analyses : List FileAnalysis) (r : Resolver) (scanned : List String)
    (label : String) : allIds (ofAnalyses analyses r scanned label).analyses = allIds analyses := by
  rw [ofAnalyses, allIds_settleCalls]
  simp only [allIds, List.flatMap_map, resolveImports]

theorem listed_ids_sublist (a : Assembly) : (a.listed.map (·.2.id)).Sublist (allIds a.analyses) := by
  unfold listed allIds
  rw [List.map_flatMap]
  induction a.analyses with
  | nil => exact .slnil
  | cons file files ih =>
    rw [List.flatMap_cons, List.flatMap_cons]
    refine List.Sublist.append ?_ ih
    rw [List.map_map]
    exact List.filter_sublist.map _

def FirstBy (a : Assembly) (name : String) (f : FunctionRecord) : Prop :=
  ∃ before path after, a.listed = before ++ (path, f) :: after ∧ GoesBy path f name ∧
    ∀ g ∈ before, ¬ GoesBy g.1 g.2 name

section
variable {a : Assembly} (hids : (a.listed.map (·.2.id)).Nodup)
include hids

theorem lookup_symbols_eq_some_iff {path : String} {f : FunctionRecord} (hf : (path, f) ∈ a.listed)
    (name : String) : a.symbols.lookup name = some f.id ↔ a.FirstBy name f := by
  rw [lookup_symbols, Option.map_eq_some_iff]
  constructor
  · rintro ⟨g, hg, hid⟩
    have heq : g = (path, f) := List.inj_on_of_nodup_map hids (List.mem_of_find?_eq_some hg) hf hid
    subst heq
    obtain ⟨hname, before, after, hlist, hbefore⟩ := List.find?_eq_some_iff_append.1 hg
    simp only [List.contains_iff_mem, mem_recordNames_iff, Bool.not_eq_true', ← Bool.not_eq_true]
      at hname hbefore
    exact ⟨before, path, after, hlist, hname, hbefore⟩
  · rintro ⟨before, path, after, hlist, hname, hbefore⟩
    refine ⟨(path, f), List.find?_eq_some_iff_append.2 ⟨?_, before, after, hlist, ?_⟩, rfl⟩
    · rwa [List.contains_iff_mem, mem_recordNames_iff]
    · simpa only [List.contains_iff_mem, mem_recordNames_iff, Bool.not_eq_true', ← Bool.not_eq_true]
        using hbefore

theorem firstBy_iff {before after : List (String × FunctionRecord)} {path : String}
    {f : FunctionRecord} (hlist : a.listed = before ++ (path, f) :: after) {name : String}
    (hname : GoesBy path f name) : a.FirstBy name f ↔ ∀ g ∈ before, ¬ GoesBy g.1 g.2 name := by
  constructor
  · rintro ⟨before', path', after', hlist', -, hbefore⟩
    have hmem : (path, f) ∈ a.listed := by simp [hlist]
    have hmem' : (path', f) ∈ a.listed := by simp [hlist']
    have heq : (path', f) = (path, f) := List.inj_on_of_nodup_map hids hmem' hmem rfl
    have hnodup := hids.of_map
    rw [hlist, List.nodup_middle, List.nodup_cons, List.mem_append, not_or] at hnodup
    rw [hlist, heq, List.append_cons_inj_of_notMem hnodup.1.1 hnodup.1.2] at hlist'
    rw [hlist'.1]
    exact hbefore
  · intro hbefore
    exact ⟨before, path, after, hlist, hname, hbefore⟩

/-- What an endpoint means: the first record by its path and symbol, or the first by its symbol alone
where no record goes by the two. -/
theorem symbolId?_eq_some_iff {path : String} {f : FunctionRecord} (hf : (path, f) ∈ a.listed)
    (e : SymbolRef) : symbolId? a.symbols e = some f.id ↔
      a.FirstBy (exportKey e.filePath e.symbol) f ∨
      (∀ g ∈ a.listed, ¬ GoesBy g.1 g.2 (exportKey e.filePath e.symbol)) ∧ a.FirstBy e.symbol f := by
  rw [symbolId?, Option.or_eq_some_iff, lookup_symbols_eq_some_iff hids hf,
    lookup_symbols_eq_some_iff hids hf, lookup_symbols_eq_none_iff]

theorem symbolId?_eq_some_iff_before {before after : List (String × FunctionRecord)}
    {path s : String} {f : FunctionRecord} (hlist : a.listed = before ++ (path, f) :: after)
    (hexported : f.exportedAs = some s) (hs : s ≠ "") :
    symbolId? a.symbols ⟨path, s⟩ = some f.id ↔ ∀ g ∈ before, ¬ GoesBy g.1 g.2 (exportKey path s) := by
  have hf : (path, f) ∈ a.listed := by simp [hlist]
  have hname : GoesBy path f (exportKey path s) := .exported hexported hs
  rw [symbolId?_eq_some_iff hids hf, ← firstBy_iff hids hlist hname]
  constructor
  · rintro (h | ⟨hnone, -⟩)
    · exact h
    · exact absurd hname (hnone _ hf)
  · exact .inl

end

/-! ## Names behind plain paths -/

theorem exportKey_inj {path path' s s' : String} (hpath : ':' ∉ path.toList) (hpath' : ':' ∉ path'.toList)
    (h : exportKey path s = exportKey path' s') : path = path' ∧ s = s' := by
  have hlist : path.toList ++ ':' :: s.toList = path'.toList ++ ':' :: s'.toList := by
    simpa [exportKey] using congrArg String.toList h
  have hplain : ∀ {p : String}, ':' ∉ p.toList → ∀ c ∈ p.toList, (c != ':') = true := by
    intro p hp c hc
    simp only [bne_iff_ne]
    rintro rfl
    exact hp hc
  obtain ⟨hp, hs⟩ := append_inj_of_stops (hplain hpath) (hplain hpath') (by simp) (by simp) hlist
  exact ⟨String.toList_inj.1 hp, String.toList_inj.1 (List.cons.inj hs).2⟩

/-- Where no path holds a colon, a record goes by a path and a name only if it is of the file. -/
theorem goesBy_exportKey_iff {path path' s : String} {g : FunctionRecord} (hpath : ':' ∉ path.toList)
    (hpath' : ':' ∉ path'.toList) (hid : g.id ≠ exportKey path s) :
    GoesBy path' g (exportKey path s) ↔
      path' = path ∧ (g.exportedAs = some s ∧ s ≠ "" ∨ g.displayName = s) := by
  constructor
  · intro h
    generalize hname : exportKey path s = name at h
    cases h with
    | id => exact absurd hname.symm hid
    | exported h hs =>
      obtain ⟨rfl, rfl⟩ := exportKey_inj hpath hpath' hname
      exact ⟨rfl, .inl ⟨h, hs⟩⟩
    | own =>
      obtain ⟨rfl, rfl⟩ := exportKey_inj hpath hpath' hname
      exact ⟨rfl, .inr rfl⟩
  · rintro ⟨rfl, ⟨h, hs⟩ | rfl⟩
    · exact .exported h hs
    · exact .own

/-! ## Endpoints of proposals -/

/-- A proposal between two functions makes the edge between those that its endpoints mean. -/
theorem mem_merge_keys (a : Assembly) {proposals : Proposals} {p : FunctionProposal}
    (hp : p ∈ proposals.functions) {source target : String}
    (hsource : symbolId? a.symbols p.source = some source)
    (htarget : symbolId? a.symbols p.target = some target) (hne : source ≠ target) :
    edgeKey source target ∈ (a.merge proposals).assembly.functionEdges.keys := by
  have hedge : ∃ e, proposedCallEdge? a.symbols p = some e ∧ e.key = edgeKey source target := by
    simp only [proposedCallEdge?, hsource, htarget, beq_iff_eq, hne, if_false]
    exact ⟨_, rfl, rfl⟩
  obtain ⟨e, he, hkey⟩ := hedge
  rw [merge_assembly]
  refine (EdgeStore.mem_upsertAll_keys _ _ _).2 (.inr ?_)
  exact List.mem_map.2 ⟨e, List.mem_filterMap.2 ⟨p, hp, he⟩, hkey⟩

/-- Which function the endpoints of proposals mean, where no two records of the analyses have one id. Any
endpoint means the first record that goes by its path and symbol, or by its symbol where there is none of
the first kind. So a record is found by the name that its file exports it under exactly if no record listed
before it goes by the path and the name; with plain paths, if no record of the file before it has the name
as its own. Proposals make the edges between the functions that their endpoints mean. -/
theorem symbolId?_of_exported (analyses : List FileAnalysis) (r : Resolver) (scanned : List String)
    (label : String) (hids : (allIds analyses).Nodup) :
    let a := ofAnalyses analyses r scanned label
    (∀ path f, (path, f) ∈ a.listed → ∀ e : SymbolRef, symbolId? a.symbols e = some f.id ↔
      a.FirstBy (exportKey e.filePath e.symbol) f ∨
      (∀ g ∈ a.listed, ¬ GoesBy g.1 g.2 (exportKey e.filePath e.symbol)) ∧ a.FirstBy e.symbol f) ∧
    (∀ before path f after s, a.listed = before ++ (path, f) :: after → f.exportedAs = some s → s ≠ "" →
      (symbolId? a.symbols ⟨path, s⟩ = some f.id ↔
        ∀ g ∈ before, ¬ GoesBy g.1 g.2 (exportKey path s)) ∧
      ((∀ g, (path, g) ∈ a.listed → g.exportedAs = some s → g = f) →
        (∀ g ∈ a.listed, ':' ∉ g.1.toList ∧ g.2.id ≠ exportKey path s) →
        (symbolId? a.symbols ⟨path, s⟩ = some f.id ↔ ∀ g, (path, g) ∈ before → g.displayName ≠ s))) ∧
    (∀ proposals : Proposals, ∀ p ∈ proposals.functions, ∀ source target,
      symbolId? a.symbols p.source = some source → symbolId? a.symbols p.target = some target →
      source ≠ target → edgeKey source target ∈ (a.merge proposals).assembly.functionEdges.keys) := by
  intro a
  have hlisted : (a.listed.map (·.2.id)).Nodup := by
    refine (listed_ids_sublist a).nodup ?_
    rw [allIds_ofAnalyses]
    exact hids
  refine ⟨fun path f hf e => symbolId?_eq_some_iff hlisted hf e, ?_,
    fun proposals p hp source target => mem_merge_keys a hp⟩
  intro before path f after s hlist hexported hs
  have hfirst := symbolId?_eq_some_iff_before hlisted hlist hexported hs
  refine ⟨hfirst, fun honly hplain => ?_⟩
  have hf : (path, f) ∈ a.listed := by simp [hlist]
  have hbefore : ∀ g ∈ before, g ∈ a.listed := by
    intro g hg
    simp [hlist, hg]
  have hgoes : ∀ g ∈ before, (GoesBy g.1 g.2 (exportKey path s) ↔
      g.1 = path ∧ (g.2.exportedAs = some s ∧ s ≠ "" ∨ g.2.displayName = s)) := fun g hg =>
    goesBy_exportKey_iff (hplain _ hf).1 (hplain g (hbefore g hg)).1 (hplain g (hbefore g hg)).2
  rw [hfirst]
  constructor
  · intro h g hg hown
    exact h _ hg ((hgoes _ hg).2 ⟨rfl, .inr hown⟩)
  · rintro h ⟨path', g⟩ hg hname
    obtain ⟨hpath, ⟨hsame, -⟩ | hown⟩ := (hgoes _ hg).1 hname
    · -- the only record of the file with the exported name does not stand in front of itself
      cases hpath
      cases honly g (hbefore _ hg) hsame
      have hnodup := hlisted.of_map
      rw [hlist, List.nodup_middle, List.nodup_cons, List.mem_append, not_or] at hnodup
      exact hnodup.1.1 hg
    · cases hpath
      exact h g hg hown

/-- The exported name stands in front of the own name, with another function before both. -/
theorem symbolId?_of_own_name_behind :
    let other : FunctionRecord :=
      { id := "a.ts::v", displayName := "v", filePath := "a.ts", kind := .function, included := true }
    let exported : FunctionRecord :=
      { id := "a.ts::t", displayName := "t", filePath := "a.ts", kind := .function, exported := true
        exportedAs := some "s", included := true }
    let own : FunctionRecord :=
      { id := "a.ts::s", displayName := "s", filePath := "a.ts", kind := .function, exported := true
        exportedAs := some "u", included := true }
    let analyses : List FileAnalysis :=
      [{ path := "a.ts", language := "typescript", functions := [other, exported, own] }]
    let a := ofAnalyses analyses { known := ["a.ts"] } [] "."
    (allIds analyses).Nodup ∧ a.listed = [("a.ts", other), ("a.ts", exported), ("a.ts", own)] ∧
    symbolId? a.symbols ⟨"a.ts", "s"⟩ = some exported.id := by
  intro other exported own analyses a
  have hids : (allIds analyses).Nodup := by decide
  have hlisted : (ofAnalyses analyses { known := ["a.ts"] } [] ".").listed =
      [("a.ts", other), ("a.ts", exported), ("a.ts", own)] := by decide +kernel
  refine ⟨hids, hlisted, ?_⟩
  have hplain := ((symbolId?_of_exported analyses { known := ["a.ts"] } [] "." hids).2.1
    [("a.ts", other)] "a.ts" exported [("a.ts", own)] "s" hlisted rfl (by decide)).2
  refine (hplain ?_ ?_).2 ?_
  · intro g hg hs
    simp only [hlisted, List.mem_cons, Prod.mk.injEq, true_and, List.not_mem_nil, or_false] at hg
    rcases hg with rfl | rfl | rfl
    · cases hs
    · rfl
    · exact absurd hs (by decide)
  · rw [hlisted]
    decide +kernel
  · intro g hg
    cases List.mem_singleton.1 hg
    decide

/-- The first function has the name as its own, and the second is exported under it: the first is
found. -/
theorem symbolId?_of_own_name_before :
    let first : FunctionRecord :=
      { id := "a.ts::s", displayName := "s", filePath := "a.ts", kind := .function, exported := true
        exportedAs := some "u", included := true }
    let second : FunctionRecord :=
      { id := "a.ts::t", displayName := "t", filePath := "a.ts", kind := .function, exported := true
        exportedAs := some "s", included := true }
    let analyses : List FileAnalysis :=
      [{ path := "a.ts", language := "typescript", functions := [first, second] }]
    let a := ofAnalyses analyses { known := ["a.ts"] } [] "."
    (allIds analyses).Nodup ∧ a.listed = [("a.ts", first), ("a.ts", second)] ∧
    symbolId? a.symbols ⟨"a.ts", "s"⟩ = some first.id := by
  decide +kernel

end CodeAtlas.Assembly
