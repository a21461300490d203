import CodeAtlas.Alias.Mapping
import CodeAtlas.Proofs.Paths
import CodeAtlas.Proofs.Resolution
import Mathlib.Data.List.TakeDrop
import Mathlib.Tactic.Conv

/-!
# Path mappings with a star

A mapping from `p*s` to `a*b` makes an alias whose target is the path before the star of `a*b`; what
stands behind that star is not kept. The text that the first star stands for is looked for inside of
the directory `a`, so it is put in place of the second star only if `a` ends in a slash and `b` adds
nothing but what the search adds itself (`resolve_of_path_mapping`).
-/

namespace CodeAtlas.Alias

open CodeAtlas.Path Resolver

/-! ## Targets -/

theorem splitStar_append {a : String} (h : '*' ∉ a.toList) (b : String) :
    splitStar (a ++ "*" ++ b) = some (a, b) := by
  have hlead : ∀ c ∈ a.toList, (c != '*') = true := by
    intro c hc
    rw [bne_iff_ne]
    rintro rfl
    exact h hc
  have hspan : (a ++ "*" ++ b).toList.span (· != '*') = (a.toList, '*' :: b.toList) := by
    rw [List.span_eq_takeWhile_dropWhile, String.toList_append, String.toList_append,
      List.append_assoc, List.takeWhile_append_of_pos hlead, List.dropWhile_append_of_pos hlead]
    simp
  unfold splitStar
  rw [hspan]
  simp

theorem forward_dot (x : String) : forward ("./" ++ x) = "." ++ "/" ++ forward x := by
  rw [forward_append]
  rfl

theorem isRelative_dot (x : String) : IsRelative (forward ("./" ++ x)) := by
  rw [forward_dot]
  exact isRelative_append (by unfold IsRelative; decide) (by decide) _

theorem steps_forward_dot (x : String) (before : List String) :
    steps (forward ("./" ++ x)) before = steps (forward x) before := by
  rw [forward_dot, steps_append, steps_dot]

theorem steps_dropLeadingSlashes (x : String) (before : List String) :
    steps (forward (dropLeadingSlashes x)) before = steps (forward x) before := by
  rw [← String.ofList_toList (s := x)]
  unfold dropLeadingSlashes
  rw [String.toList_ofList]
  induction x.toList with
  | nil => rfl
  | cons c cs ih =>
    by_cases hc : c = '/'
    · have hforward : forward (String.ofList (c :: cs)) = "" ++ "/" ++ forward (String.ofList cs) := by
        rw [← String.toList_inj]
        simp [forward, hc]
      rw [List.dropWhile_cons_of_pos (by simp [hc]), ih, hforward, steps_append, steps_empty]
    · rw [List.dropWhile_cons_of_neg (by simp [hc])]

theorem not_startsWith_dropLeadingSlashes (x : String) :
    (dropLeadingSlashes x).startsWith "/" = false := by
  rw [Bool.eq_false_iff, Ne, startsWith_slash]
  rintro ⟨cs, hcs⟩
  unfold dropLeadingSlashes at hcs
  rw [String.toList_ofList] at hcs
  have hhead := List.head?_dropWhile_not (· == '/') x.toList
  rw [hcs] at hhead
  simp at hhead

/-- Dots and slashes in front of a target make no difference. -/
theorem targetPath_eq {a : String} (h : '*' ∉ a.toList) (b : String) :
    targetPath "." (a ++ "*" ++ b) = canonical ("./" ++ a) := by
  have hjoin : ∀ x, join "." (dropLeadingSlashes x) = "./" ++ dropLeadingSlashes x := by
    intro x
    have hdot : ("." : String).isEmpty = false ∧ ("." : String).endsWith "/" = false := by decide +kernel
    simp only [join, not_startsWith_dropLeadingSlashes, hdot.1, hdot.2]
    rfl
  have hdots : ∀ x, steps (forward x) [] = steps (forward a) [] →
      canonical ("./" ++ dropLeadingSlashes x) = canonical ("./" ++ a) := by
    intro x hx
    refine canonical_congr (isRelative_dot _) (isRelative_dot _) ?_
    rw [steps_forward_dot, steps_forward_dot, steps_dropLeadingSlashes, hx]
  simp only [targetPath, splitStar_append h, Option.map_some, Option.getD_some, hjoin]
  -- two characters go if the target starts with a dot and a slash
  split
  · next hstart =>
    obtain ⟨cs, hcs⟩ := String.startsWith_string_iff.1 hstart
    have ha : a = "./" ++ String.ofList (a.toList.drop 2) := by
      rw [← String.toList_inj, ← hcs]
      simp
    refine hdots _ ?_
    conv_rhs => rw [ha]
    rw [steps_forward_dot]
  · exact hdots a rfl

def searchBase (a w : String) : String :=
  if w.startsWith "/" then canonical w else canonical ("./" ++ a ++ "/" ++ w)

theorem canonical_join_targetPath {a : String} (h : '*' ∉ a.toList) (b w : String) :
    canonical (join (targetPath "." (a ++ "*" ++ b)) w) = searchBase a w := by
  unfold searchBase
  split
  · next hw => rw [join, if_pos hw]
  · next hw =>
    rw [targetPath_eq h, canonical_join (isRelative_dot a) (by simp) (Bool.eq_false_iff.2 hw)]

/-- The star of the target stands behind a slash, and what it stands for is no path from the root. -/
def StarAtSlash (a w : String) : Prop :=
  (a = "" ∨ ∃ u, a = u ++ "/" ∨ a = u ++ "\\") ∧ IsRelative (forward (a ++ w)) ∧
    w.startsWith "/" = false

theorem searchBase_of_starAtSlash {a w : String} (h : StarAtSlash a w) :
    searchBase a w = canonical (a ++ w) := by
  obtain ⟨hslash, hrelative, hw⟩ := h
  have hassoc : "./" ++ a ++ "/" ++ w = "./" ++ (a ++ "/" ++ w) := by
    simp [String.append_assoc]
  rw [searchBase, if_neg (by simp [hw]), hassoc]
  refine canonical_congr (isRelative_dot _) hrelative ?_
  have hinside : steps (forward (a ++ "/" ++ w)) [] = steps (forward (a ++ w)) [] := by
    have hsplit : forward (a ++ "/" ++ w) = forward a ++ "/" ++ forward w := by
      rw [forward_append, forward_append]
      rfl
    rw [hsplit, steps_append]
    rcases hslash with rfl | ⟨u, hu⟩
    · simp [forward]
    · have ha : forward a = forward u ++ "/" := by
        rcases hu with rfl | rfl
        · rw [forward_append]
          rfl
        · rw [forward_append]
          rfl
      have hempty : forward u ++ "/" = forward u ++ "/" ++ "" := by simp
      rw [forward_append, ha, steps_append, hempty, steps_append, steps_empty]
  rw [steps_forward_dot, hinside]

/-! ## The alias of a mapping -/

/-- The configuration maps one key to one target, and names no base directory. -/
def Maps (config : Json) (key target : String) : Prop :=
  ∃ members options, config = .obj members ∧
    Json.lookup members "compilerOptions" = some (.obj options) ∧
    Json.lookup options "paths" = some (.obj [(key, .arr [.str target])]) ∧
    Json.lookup options "baseUrl" = none

theorem ofConfig_of_maps {config : Json} {p s target : String} (hp : '*' ∉ p.toList)
    (h : Maps config (p ++ "*" ++ s) target) : ofConfig config "" =
      .ok [{ lead := p, trail := s, targets := [targetPath "." target] }] := by
  obtain ⟨members, options, rfl, hoptions, hpaths, hbase⟩ := h
  have hpresent : Json.present? (some (.obj options)) = some (.obj options) := by
    cases options with
    | nil => cases hpaths
    | cons m options => rfl
  have habsent : Json.present? none = none := rfl
  have hroot : canonical (join "" (dropLeadingSlashes ".")) = "." := by decide +kernel
  have hmember : ofMember? "." (p ++ "*" ++ s) (.arr [.str target]) =
      some { lead := p, trail := s, targets := [targetPath "." target] } := by
    simp [ofMember?, splitStar_append hp, Json.arr?, Json.str?]
  simp only [ofConfig, hoptions, hpresent, hpaths, hbase, habsent, Option.map_none, Option.getD_none,
    hroot, List.filterMap_cons, List.filterMap_nil, hmember]

theorem remainder?_append (p w s : String) (targets : List String) :
    remainder? { lead := p, trail := s, targets } (p ++ w ++ s) = some w := by
  have hlead : p.toList.isPrefixOf (p.toList ++ w.toList ++ s.toList) = true := by
    rw [List.isPrefixOf_iff_prefix, List.append_assoc]
    exact List.prefix_append _ _
  have htrail : s.toList.isSuffixOf (p.toList ++ w.toList ++ s.toList) = true := by
    rw [List.isSuffixOf_iff_suffix]
    exact List.suffix_append _ _
  have hlength : (p.toList ++ w.toList ++ s.toList).length - s.toList.length
      = (p.toList ++ w.toList).length := by
    rw [List.length_append, Nat.add_sub_cancel]
  simp only [remainder?, String.toList_append, hlead, htrail, hlength, List.take_left, List.drop_left,
    String.ofList_toList, Bool.and_self, Bool.true_and, if_true]
  rw [if_pos]
  simp

end CodeAtlas.Alias

namespace CodeAtlas.Resolver

open CodeAtlas.Path

theorem resolve_eq_some_iff (r : Resolver) {importer specifier file : String} (h : specifier ≠ "")
    (hknown : file ∈ r.known)
    (honly : ∀ other ∈ searched r.aliases importer specifier, other ∈ r.known → other = file) :
    r.resolve importer specifier = some file ↔ file ∈ searched r.aliases importer specifier := by
  rw [resolve_eq r h]
  constructor
  · exact List.mem_of_find?_eq_some
  · intro hmem
    cases hfind : (searched r.aliases importer specifier).find? (· ∈ r.known) with
    | none => exact absurd (decide_eq_true hknown) (by simpa using List.find?_eq_none.1 hfind file hmem)
    | some found =>
      have hfound : found ∈ r.known := by simpa using List.find?_some hfind
      rw [honly found (List.mem_of_find?_eq_some hfind) hfound]

def searchedWithout (importer specifier : String) : List String :=
  filesOf (family importer) (canonical (dropLeadingSlashes specifier)) ++
    filesOf (family importer) (canonical (join sourceRoot (dropLeadingSlashes specifier)))

theorem searched_of_remainder {a : Alias} {target specifier rest : String}
    (htargets : a.targets = [target]) (hrest : a.remainder? specifier = some rest)
    (hdot : specifier.startsWith "." = false) (importer : String) :
    searched [a] importer specifier =
      filesOf (family importer) (canonical (join target rest)) ++ searchedWithout importer specifier := by
  simp [searched, searchedWithout, hdot, hrest, htargets]

theorem mem_filesOf_self {family base : String} (hempty : base ≠ "") (hdot : base ≠ ".") :
    base ∈ filesOf family base := by
  simp [filesOf, hempty, hdot]

/-- The file that a mapping means is found exactly if the search at the directory before the target's
star, or one without the mapping, leads to it. The former does if nothing stands behind the star, and
a slash in front of it. -/
theorem resolve_of_path_mapping {config : Json} {p s a b w : String}
    (hmaps : Alias.Maps config (p ++ "*" ++ s) (a ++ "*" ++ b)) (hp : '*' ∉ p.toList)
    (ha : '*' ∉ a.toList) (hw : w ≠ "") (hdot : (p ++ w ++ s).startsWith "." = false) :
    ∃ aliases, Alias.ofConfig config "" = .ok aliases ∧
      ∀ known importer, canonical (a ++ w ++ b) ∈ known →
        (∀ file ∈ searched aliases importer (p ++ w ++ s), file ∈ known →
          file = canonical (a ++ w ++ b)) →
        (resolve { known, aliases } importer (p ++ w ++ s) = some (canonical (a ++ w ++ b)) ↔
          canonical (a ++ w ++ b) ∈ filesOf (family importer) (Alias.searchBase a w) ∨
          canonical (a ++ w ++ b) ∈ searchedWithout importer (p ++ w ++ s)) ∧
        (b = "" → Alias.StarAtSlash a w → canonical (a ++ w) ≠ "." →
          resolve { known, aliases } importer (p ++ w ++ s) = some (canonical (a ++ w))) := by
  refine ⟨[{ lead := p, trail := s, targets := [Alias.targetPath "." (a ++ "*" ++ b)] }],
    Alias.ofConfig_of_maps hp hmaps, fun known importer hknown honly => ?_⟩
  have hspecifier : p ++ w ++ s ≠ "" := by
    intro hempty
    simp only [String.append_eq_empty_iff] at hempty
    exact hw hempty.1.2
  have hfound := resolve_eq_some_iff ⟨known, _⟩ hspecifier hknown honly
  rw [searched_of_remainder rfl (Alias.remainder?_append p w s _) hdot,
    Alias.canonical_join_targetPath ha b w, List.mem_append] at hfound
  refine ⟨hfound, ?_⟩
  rintro rfl hslash hroot
  have htext : a ++ w ++ "" = a ++ w := String.append_empty
  rw [htext] at hfound
  refine hfound.2 (.inl ?_)
  rw [Alias.searchBase_of_starAtSlash hslash]
  exact mem_filesOf_self (normal_ne_empty hslash.2.1) hroot

def mapping (key target : String) : Json :=
  .obj [("compilerOptions", .obj [("paths", .obj [(key, .arr [.str target])])])]

theorem mapping_maps (key target : String) : Alias.Maps (mapping key target) key target :=
  ⟨_, _, rfl, rfl, rfl, rfl⟩

def sourceAlias : Alias where
  lead := "@/"
  trail := ".js"
  targets := ["src/lib"]

theorem resolve_of_source_mapping :
    Alias.Maps (mapping ("@/" ++ "*" ++ ".js") ("./src/lib/" ++ "*" ++ ""))
      ("@/" ++ "*" ++ ".js") ("./src/lib/" ++ "*" ++ "") ∧
    Alias.StarAtSlash "./src/lib/" "../x" ∧
    Alias.ofConfig (mapping ("@/" ++ "*" ++ ".js") ("./src/lib/" ++ "*" ++ "")) "" =
      .ok [sourceAlias] ∧
    (∀ file ∈ searched [sourceAlias] "main.ts" "@/../x.js", file ∈ ["main.ts", "src/x"] →
      file = "src/x") ∧
    resolve { known := ["main.ts", "src/x"], aliases := [sourceAlias] } "main.ts" "@/../x.js" =
      some "src/x" := by
  have hmaps := mapping_maps ("@/" ++ "*" ++ ".js") ("./src/lib/" ++ "*" ++ "")
  have hslash : Alias.StarAtSlash "./src/lib/" "../x" :=
    ⟨.inr ⟨"./src/lib", .inl rfl⟩, by unfold IsRelative; decide, by decide +kernel⟩
  have honly : ∀ file ∈ searched [sourceAlias] "main.ts" "@/../x.js", file ∈ ["main.ts", "src/x"] →
      file = "src/x" := by
    decide +kernel
  obtain ⟨aliases, hconfig, hresolve⟩ :=
    resolve_of_path_mapping (w := "../x") hmaps (by decide) (by decide) (by decide) (by decide +kernel)
  obtain rfl : [sourceAlias] = aliases := by
    rw [Alias.ofConfig_of_maps (by decide) hmaps] at hconfig
    rw [← Except.ok.inj hconfig]
    decide +kernel
  exact ⟨hmaps, hslash, hconfig, honly,
    (hresolve ["main.ts", "src/x"] "main.ts" (by decide +kernel) honly).2 rfl hslash (by decide +kernel)⟩

def packageAlias : Alias where
  lead := "@pkg/"
  trail := ""
  targets := ["packages"]

theorem resolve_of_text_behind_star :
    Alias.ofConfig (mapping "@pkg/*" "packages/*/main.ts") "" = .ok [packageAlias] ∧
    canonical ("packages/" ++ "core" ++ "/main.ts") = "packages/core/main.ts" ∧
    (∀ file ∈ searched [packageAlias] "app.ts" "@pkg/core",
      file ∈ ["app.ts", "packages/core/main.ts"] → file = "packages/core/main.ts") ∧
    resolve { known := ["app.ts", "packages/core/main.ts"], aliases := [packageAlias] } "app.ts"
      "@pkg/core" = none := by
  refine ⟨?_, by decide +kernel, by decide +kernel, by decide +kernel⟩
  have hconfig := Alias.ofConfig_of_maps (p := "@pkg/") (s := "") (by decide)
    (mapping_maps "@pkg/*" "packages/*/main.ts")
  rw [hconfig]
  exact congrArg Except.ok (by decide +kernel)

end CodeAtlas.Resolver
