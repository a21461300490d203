import CodeAtlas.Pattern.Extraction
import CodeAtlas.Proofs.PatternMatches
import CodeAtlas.Proofs.RecordIds

/-!
# Files read by patterns

A file that is read by the patterns of a language lists each import and each declaration once. Two
declarations of one name, which then differ in kind, are told apart by a number behind the second. No
built-in language keeps a `#` in the name of a declaration, so that no name can spell the number of
another one, and the ids of a file are distinct (`analyze_distinct`).
-/

namespace CodeAtlas.PatternLanguage

/-! ## Imports and declarations -/

/-- Some pattern of the language's imports keeps a text with a part that is read as the specifier. -/
def Imports (l : PatternLanguage) (content source : String) : Prop :=
  ∃ entry ∈ l.imports, ∃ text ∈ entry.1.keptTexts content, ∃ piece ∈ l.pieces text,
    entry.2 piece = some source

def Declares (l : PatternLanguage) (content name : String) (kind : RecordKind) : Prop :=
  ∃ p, (p, kind) ∈ l.declarations ∧ name ∈ p.keptTexts content

variable {l : PatternLanguage} {content : String}

theorem mem_importsOf {source : String} :
    source ∈ l.importsOf content ↔ source ≠ "" ∧ l.Imports content source := by
  simp only [importsOf, Imports, List.mem_eraseDups, List.mem_flatMap, List.mem_filter,
    List.mem_filterMap, Bool.not_eq_true', String.isEmpty_eq_false_iff]
  constructor
  · rintro ⟨entry, hentry, text, htext, ⟨piece, hpiece, hsource⟩, hne⟩
    exact ⟨hne, entry, hentry, text, htext, piece, hpiece, hsource⟩
  · rintro ⟨hne, entry, hentry, text, htext, piece, hpiece, hsource⟩
    exact ⟨entry, hentry, text, htext, ⟨piece, hpiece, hsource⟩, hne⟩

theorem mem_declarationsOf {d : Declaration} :
    d ∈ l.declarationsOf content ↔ d.name ≠ "" ∧ d.name ∉ l.reserved ∧ l.Declares content d.name d.kind := by
  simp only [declarationsOf, Declares, List.mem_eraseDups, List.mem_flatMap, List.mem_map,
    List.mem_filter, Bool.and_eq_true, Bool.not_eq_true', String.isEmpty_eq_false_iff,
    List.contains_eq_mem, decide_eq_false_iff_not]
  constructor
  · rintro ⟨⟨p, kind⟩, hp, name, ⟨hname, hne, hreserved⟩, rfl⟩
    exact ⟨hne, hreserved, p, hp, hname⟩
  · rintro ⟨hne, hreserved, p, hp, hname⟩
    exact ⟨⟨p, d.kind⟩, hp, d.name, ⟨hname, hne, hreserved⟩, rfl⟩

/-! ## Records -/

theorem localId_eq (before : List Declaration) (d : Declaration) :
    localId before d = d.name ++ Script.mark ((before.map (·.name)).count d.name) := by
  have hcount : (before.filter (·.name == d.name)).length = (before.map (·.name)).count d.name := by
    rw [← List.countP_eq_length_filter, List.count, List.countP_map]
    rfl
  rw [localId, hcount]
  by_cases hzero : (before.map (·.name)).count d.name = 0
  · simp [hzero]
  · rw [Script.append_mark hzero]
    simp [hzero]

theorem recordsFrom_append (path : String) (ds es : List Declaration) :
    ∀ before, recordsFrom path before (ds ++ es) =
      recordsFrom path before ds ++ recordsFrom path (before ++ ds) es := by
  induction ds with
  | nil => simp [recordsFrom]
  | cons d ds ih => simp [recordsFrom, ih]

theorem recordsFrom_declared (path : String) (ds : List Declaration) :
    ∀ before, (recordsFrom path before ds).map (fun f => (f.displayName, f.kind)) =
      ds.map fun d => (d.name, d.kind) := by
  induction ds with
  | nil => simp [recordsFrom]
  | cons d ds ih => simp [recordsFrom, ih]

theorem recordsFrom_ids (path : String) (ds : List Declaration) :
    (recordsFrom path [] ds).map (·.id) =
      (Script.tags (ds.map (·.name))).map (Script.idOf path) := by
  induction ds using List.reverseRecOn with
  | nil => rfl
  | append_singleton ds d ih =>
    rw [recordsFrom_append, List.map_append, ih, List.map_append, List.map_singleton,
      Script.tags_concat, List.map_append, List.nil_append]
    simp only [recordsFrom, List.map_singleton, localId_eq, Script.idOf_eq]
    rfl

/-- The record behind some others is numbered by those of its name. -/
theorem id_of_recordsFrom {path : String} {f : FunctionRecord} {after : List FunctionRecord} :
    ∀ {before : List FunctionRecord} {seen ds : List Declaration},
      recordsFrom path seen ds = before ++ f :: after →
        f.id = Script.idOf path
          (f.displayName, (seen.map (·.name) ++ before.map (·.displayName)).count f.displayName)
  | [], seen, d :: ds, h => by
    obtain ⟨rfl, -⟩ := List.cons.inj h
    simp only [localId_eq, Script.idOf_eq, List.map_nil, List.append_nil]
    rfl
  | first :: before, seen, d :: ds, h => by
    obtain ⟨rfl, hrest⟩ := List.cons.inj h
    rw [id_of_recordsFrom hrest]
    simp

theorem idOf_eq_ite (path name : String) (c : Nat) :
    Script.idOf path (name, c) =
      if c + 1 = 1 then s!"{path}::{name}" else s!"{path}::{name}#{c + 1}" := by
  rw [Script.idOf_eq]
  split_ifs with hfirst
  · rw [Nat.succ.inj hfirst, Script.append_mark_zero]
    rfl
  · rw [Script.append_mark (by omega)]
    change path ++ "::" ++ (name ++ "#" ++ toString (c + 1)) =
      path ++ "::" ++ name ++ "#" ++ toString (c + 1)
    simp only [String.append_assoc]

/-! ## Names without a mark -/

theorem builtin_names_unmarked {l : PatternLanguage} (hl : l ∈ builtinLanguages)
    {entry : Pattern × RecordKind} (hentry : entry ∈ l.declarations) : entry.1.keepsNo '#' = true := by
  have hall : (builtinLanguages.all fun l => l.declarations.all fun entry => entry.1.keepsNo '#') = true := by
    decide +kernel
  exact List.all_eq_true.1 (List.all_eq_true.1 hall l hl) entry hentry

theorem not_mark_mem_name (hl : l ∈ builtinLanguages) {d : Declaration}
    (hd : d ∈ l.declarationsOf content) : '#' ∉ d.name.toList := by
  obtain ⟨-, -, p, hp, hname⟩ := mem_declarationsOf.1 hd
  exact Pattern.not_mem_of_mem_keptTexts (builtin_names_unmarked hl hp) hname

theorem recordsFrom_ids_nodup (hl : l ∈ builtinLanguages) (path content : String) :
    ((recordsFrom path [] (l.declarationsOf content)).map (·.id)).Nodup := by
  rw [recordsFrom_ids, Script.nodup_ids_iff]
  intro base k _ _ hmem
  obtain ⟨d, hd, hname⟩ := List.mem_map.1 hmem
  have hmark := not_mark_mem_name hl hd
  rw [hname, Script.toList_numbered] at hmark
  simp at hmark

/-- A file read by a built-in language lists each import and each declaration that the patterns find
once, apart from empty texts and reserved names. Its ids are distinct, and the `k`-th record of a name
has the number `k` behind it, the first one has none. -/
theorem analyze_distinct (hl : l ∈ builtinLanguages) (path content : String) :
    let a := l.analyze path content
    let sources := a.imports.map (·.source)
    let declared := a.functions.map fun f => (f.displayName, f.kind)
    (sources.Nodup ∧ ∀ source, source ∈ sources ↔ source ≠ "" ∧ l.Imports content source) ∧
    (declared.Nodup ∧ ∀ name kind, (name, kind) ∈ declared ↔
      name ≠ "" ∧ name ∉ l.reserved ∧ l.Declares content name kind) ∧
    (a.functions.map (·.id)).Nodup ∧
    ∀ (before after : List FunctionRecord) (f : FunctionRecord), a.functions = before ++ f :: after →
      let k := before.countP (·.displayName == f.displayName) + 1
      f.id = if k = 1 then s!"{path}::{f.displayName}" else s!"{path}::{f.displayName}#{k}" := by
  intro a sources declared
  have hsources : sources = l.importsOf content := by
    simp [sources, a, analyze, Function.comp_def]
  have hdeclared : declared = (l.declarationsOf content).map fun d => (d.name, d.kind) :=
    recordsFrom_declared path (l.declarationsOf content) []
  refine ⟨?_, ⟨?_, ?_⟩, recordsFrom_ids_nodup hl path content, ?_⟩
  · rw [hsources]
    exact ⟨nodup_eraseDups _, fun source => mem_importsOf⟩
  · rw [hdeclared]
    refine (nodup_eraseDups _).map ?_
    rintro ⟨name, kind⟩ ⟨name', kind'⟩ h
    simpa using h
  · intro name kind
    rw [hdeclared, List.mem_map, ← mem_declarationsOf (d := ⟨name, kind⟩)]
    constructor
    · rintro ⟨d, hd, heq⟩
      cases heq
      exact hd
    · intro hd
      exact ⟨_, hd, rfl⟩
  · intro before after f hsplit k
    have hid := id_of_recordsFrom hsplit
    rw [List.map_nil, List.nil_append, List.count, List.countP_map] at hid
    exact hid.trans (idOf_eq_ite path f.displayName _)

theorem analyze_of_class_named_as_function :
    let content := "import os, sys\nfrom os import path\ndef f(x):\nclass f:\n  def if(x):\n  def g(x):\n"
    let a := Pattern.python.analyze "m.py" content
    a.imports.map (·.source) = ["os", "sys"] ∧
      a.functions.map (fun f => (f.id, f.kind)) =
        [("m.py::f", .function), ("m.py::g", .function), ("m.py::f#2", .classLike)] ∧
      (a.functions.map (·.id)).Nodup ∧ Pattern.python.Declares content "f" .classLike := by
  intro content a
  obtain ⟨-, ⟨-, hdeclared⟩, hids, -⟩ := analyze_distinct (l := Pattern.python)
    (by simp [builtinLanguages]) "m.py" content
  refine ⟨by decide +kernel, by decide +kernel, hids, ?_⟩
  exact ((hdeclared "f" .classLike).1 (by decide +kernel)).2.2

end CodeAtlas.PatternLanguage
