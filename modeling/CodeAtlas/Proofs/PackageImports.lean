import CodeAtlas.Pattern.Specifier
import CodeAtlas.Proofs.Delimited
import CodeAtlas.Proofs.RelativeSpecifiers

/-!
# Imports from packages

The dots in front of a package name count from the package of the importer, so the specifier made of it
climbs one level less than there are dots (`packageModule_dotted`). It has one base path: the package
that is climbed to, with the names behind it (`probes_of_packageModule`).
-/

namespace CodeAtlas.Pattern

open CodeAtlas.Path

/-! ## Dotted names -/

/-- What can stand between the dots of a package name; identifiers can. -/
structure IsPackageName (name : String) : Prop where
  ne_empty : name ≠ ""
  noDot : '.' ∉ name.toList
  noSlash : '/' ∉ name.toList
  noBackslash : '\\' ∉ name.toList
  noBlank : name.toList.any Text.isBlank = false

theorem IsPackageName.isName {name : String} (h : IsPackageName name) : IsName name where
  ne_empty := h.ne_empty
  ne_dot := by
    intro hdot
    have hmem := h.noDot
    simp [hdot] at hmem
  ne_up := by
    intro hup
    have hmem := h.noDot
    simp [hup] at hmem
  noSlash := h.noSlash
  noBackslash := h.noBackslash

def dottedName (dots : Nat) (names : List String) : String :=
  String.ofList (List.replicate dots '.') ++ ".".intercalate names

theorem strip_of_noBlank {s : String} (h : ∀ c ∈ s.toList, Text.isBlank c = false) : Text.strip s = s := by
  have hdrop : ∀ cs : List Char, (∀ c ∈ cs, Text.isBlank c = false) → cs.dropWhile Text.isBlank = cs := by
    intro cs hcs
    cases cs with
    | nil => rfl
    | cons c cs => simp [hcs c List.mem_cons_self]
  rw [Text.strip, Text.stripChars, hdrop _ h, hdrop _ fun c hc => h c (List.mem_reverse.1 hc)]
  simp

section
variable {names : List String} (h : ∀ name ∈ names, IsPackageName name)
include h

theorem strip_dottedName (dots : Nat) : Text.strip (dottedName dots names) = dottedName dots names := by
  apply strip_of_noBlank
  intro c hc
  have hdot : Text.isBlank '.' = false := by decide
  rw [dottedName, String.toList_append, String.toList_ofList, List.mem_append] at hc
  rcases hc with hc | hc
  · rw [List.eq_of_mem_replicate hc]
    exact hdot
  · rcases mem_intercalate hc with hc | ⟨name, hname, hc⟩
    · rw [List.mem_singleton.1 hc]
      exact hdot
    · exact Bool.eq_false_iff.2 (List.any_eq_false.1 (h name hname).noBlank c hc)

theorem stops_names : Stops (· == '.') (".".intercalate names).toList := by
  cases names with
  | nil => simp
  | cons name names =>
    have hname := h name List.mem_cons_self
    rw [toList_intercalate_cons]
    cases hcs : name.toList with
    | nil => exact absurd (String.toList_eq_nil_iff.1 hcs) hname.ne_empty
    | cons c cs =>
      have hdot := hname.noDot
      rw [hcs, List.mem_cons, not_or] at hdot
      simpa using Ne.symm hdot.1

theorem replaceChar_names : replaceChar '.' '/' (".".intercalate names) = ofSegments names := by
  have happend : ∀ x y, replaceChar '.' '/' (x ++ y) = replaceChar '.' '/' x ++ replaceChar '.' '/' y := by
    intro x y
    simp [replaceChar]
  have hname : ∀ name, IsPackageName name → replaceChar '.' '/' name = name := by
    intro name hname
    have hmap : (name.toList.map fun c => if c == '.' then '/' else c) = name.toList := by
      conv_rhs => rw [← List.map_id name.toList]
      apply List.map_congr_left
      intro c hc
      have hdot : c ≠ '.' := fun heq => hname.noDot (heq ▸ hc)
      simp [hdot]
    rw [replaceChar, hmap, String.ofList_toList]
  induction names with
  | nil => rfl
  | cons name names ih =>
    have hfirst := hname name (h name List.mem_cons_self)
    cases names with
    | nil => simpa [ofSegments] using hfirst
    | cons next names =>
      rw [String.intercalate_cons_cons, happend, happend, hfirst,
        ih fun name hmem => h name (List.mem_cons_of_mem _ hmem), ofSegments, ofSegments,
        String.intercalate_cons_cons]
      rfl

/-- The first dot stays in the package of the importer; each further one climbs a level. -/
theorem packageModule_dotted (levels : Nat) :
    packageModule (dottedName (levels + 1) names) = some (ofSegments (climb levels ++ names)) := by
  have htext : (dottedName (levels + 1) names).toList =
      List.replicate (levels + 1) '.' ++ (".".intercalate names).toList := by
    rw [dottedName, String.toList_append, String.toList_ofList]
  have hempty : (dottedName (levels + 1) names).isEmpty = false := by
    rw [Bool.eq_false_iff, Ne, String.isEmpty_iff, ← String.toList_eq_nil_iff, htext]
    simp
  have hdots : ((dottedName (levels + 1) names).toList.takeWhile (· == '.')).length = levels + 1 := by
    rw [htext, takeWhile_of_stops (by simp) (stops_names h), List.length_replicate]
  have hrest : replaceChar '.' '/' (String.ofList ((dottedName (levels + 1) names).toList.drop (levels + 1))) =
      ofSegments names := by
    rw [htext, List.drop_left' List.length_replicate, String.ofList_toList, replaceChar_names h]
  have hnames : ∀ name ∈ names, IsName name := fun name hname => (h name hname).isName
  have hsome : names ≠ [] → (ofSegments names).isEmpty = false := by
    intro hnil
    rw [Bool.eq_false_iff, Ne, String.isEmpty_iff]
    exact ne_empty_of_segments (empty_notMem_segments_names hnames hnil)
  have hbehind : ∀ front, front ≠ [] → names ≠ [] →
      ofSegments (front ++ names) = ofSegments front ++ "/" ++ ofSegments names :=
    fun front hfront hnil => String.intercalate_append_of_ne_nil hfront hnil
  rw [packageModule, strip_dottedName h, if_neg (by simp [hempty])]
  simp only [hdots, hrest]
  by_cases hnil : names = []
  · subst hnil
    cases levels with
    | zero => rfl
    | succ n => simp [climb, ofSegments]
  · rw [hbehind _ (climb_ne_nil levels) hnil]
    cases levels with
    | zero =>
      simp only [hsome hnil, Bool.false_eq_true, if_false]
      rfl
    | succ n =>
      have hlast : ofSegments (List.replicate (n + 1) ".." ++ [ofSegments names]) =
          ofSegments (List.replicate (n + 1) "..") ++ "/" ++ ofSegments names := by
        rw [ofSegments, String.intercalate_append_of_ne_nil (by simp) (by simp),
          String.intercalate_singleton]
        rfl
      simp only [hsome hnil, Bool.false_eq_true, if_false, hlast]
      rfl

end

end CodeAtlas.Pattern

namespace CodeAtlas.Resolver

open CodeAtlas.Path CodeAtlas.Pattern

/-- A fresh session probes one base path and remembers what it led to. -/
theorem Session.memo_of_bases {r : Resolver} {importer specifier base : String} (hne : specifier ≠ "")
    (h : bases r.aliases importer specifier = [base]) :
    (Session.resolve { resolver := r } importer specifier).2.memo =
      [((family importer, base), r.probe (family importer) base)] := by
  rw [Session.resolve, if_neg (by simpa using hne), h]
  cases hprobe : r.probe (family importer) base <;>
    simp [Session.probeAny, Session.probe, hprobe]

/-- The name of a package behind dots, imported from a file of packages: the first dot is the package of
the importer, and each further one goes up a package. What is probed is the path of the names from the
package that is reached, and nothing else. -/
theorem probes_of_packageModule {importer : String} {dirs names : List String} {dots : Nat}
    (hpy : extension importer = ".py") (hdir : dirname importer = ofSegments dirs)
    (hdirs : ∀ part ∈ dirs, IsName part) (hnames : ∀ name ∈ names, IsPackageName name)
    (hdots : 1 ≤ dots) (hup : dots ≤ dirs.length + 1) :
    ∃ specifier, packageModule (dottedName dots names) = some specifier ∧ ∀ r : Resolver,
      let base := rooted (dirs.take (dirs.length - (dots - 1)) ++ names)
      r.resolve importer specifier = r.probe ".py" base ∧
      (Session.resolve { resolver := r } importer specifier).2.memo =
        [((".py", base), r.probe ".py" base)] := by
  obtain ⟨levels, rfl⟩ : ∃ levels, dots = levels + 1 := ⟨dots - 1, by omega⟩
  have hparts : ∀ name ∈ names, IsName name := fun name hname => (hnames name hname).isName
  have hclimbs := climbs_ofSegments levels hparts
  have hfamily : family importer = ".py" := by
    rw [family, hpy]
    decide +kernel
  refine ⟨_, packageModule_dotted hnames levels, fun r => ?_⟩
  have hlevels : levels ≤ dirs.length := by omega
  have hmemo := Session.memo_of_bases hclimbs.ne_empty
    (bases_of_climbs hdir hdirs hparts hclimbs hlevels r.aliases)
  have hresolve := resolve_of_climbs hdir hdirs hparts hclimbs hlevels r
  rw [hfamily] at hmemo hresolve
  exact ⟨hresolve, hmemo⟩

theorem probes_of_three_dots :
    let r : Resolver := { known := ["pkg/sub/mod.py", "util/io/__init__.py"] }
    extension "pkg/sub/mod.py" = ".py" ∧ dirname "pkg/sub/mod.py" = ofSegments ["pkg", "sub"] ∧
    (∀ part ∈ ["pkg", "sub"], IsName part) ∧ (∀ name ∈ ["util", "io"], IsPackageName name) ∧
    packageModule "...util.io" = some "../../util/io" ∧
    r.resolve "pkg/sub/mod.py" "../../util/io" = some "util/io/__init__.py" := by
  intro r
  have hpy : extension "pkg/sub/mod.py" = ".py" := by decide +kernel
  have hdir : dirname "pkg/sub/mod.py" = ofSegments ["pkg", "sub"] := by decide +kernel
  have hdirs : ∀ part ∈ ["pkg", "sub"], IsName part := by decide +kernel
  have hnames : ∀ name ∈ ["util", "io"], IsPackageName name := by
    intro name hname
    rcases List.mem_pair.1 hname with rfl | rfl
    · exact ⟨by decide, by decide, by decide, by decide, by decide⟩
    · exact ⟨by decide, by decide, by decide, by decide, by decide⟩
  have hmodule : packageModule (dottedName 3 ["util", "io"]) = some "../../util/io" := by decide +kernel
  obtain ⟨specifier, hspecifier, hprobes⟩ :=
    probes_of_packageModule hpy hdir hdirs hnames (show 1 ≤ 3 by decide) (by decide)
  obtain rfl : "../../util/io" = specifier := Option.some.inj (hmodule.symm.trans hspecifier)
  refine ⟨hpy, hdir, hdirs, hnames, hmodule, ?_⟩
  rw [(hprobes r).1]
  decide +kernel

end CodeAtlas.Resolver
