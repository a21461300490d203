import CodeAtlas.Proofs.PathMappings
import Mathlib.Data.List.Forall2

/-!
# Configuration files with parts that cannot be used

What a configuration file says about aliases is read part by part: a text that is no JSON, a document that
is no table, paths that are none, a value without any text among its items each declare nothing, and the
next file is asked when the first one declares nothing. Three kinds of documents stop the reading instead
(`Breaks`), and there are no others (`ofFiles_outcome`).
-/

namespace CodeAtlas.Alias

open CodeAtlas.Path

/-! ## Members of the table of paths -/

def hasTarget (value : Json) : Bool :=
  (value.arr?.getD []).any (·.str?.isSome)

/-- The alias that a key and the texts in its list make: the key is split at its first star. -/
structure Declared (base : String) (member : String × Json) (a : Alias) : Prop where
  targets : a.targets = ((member.2.arr?.getD []).filterMap Json.str?).map (targetPath base)
  some_target : a.targets ≠ []
  lead : '*' ∉ a.lead.toList
  key : a.wildcard = true ∧ member.1 = a.lead ++ "*" ++ a.trail ∨
    a.wildcard = false ∧ member.1 = a.lead ∧ a.trail = ""

theorem splitStar_eq_some {s lead trail : String} (h : splitStar s = some (lead, trail)) :
    s = lead ++ "*" ++ trail ∧ '*' ∉ lead.toList := by
  unfold splitStar at h
  rw [List.span_eq_takeWhile_dropWhile] at h
  have happend := List.takeWhile_append_dropWhile (p := fun c : Char => c != '*') (l := s.toList)
  cases hdrop : s.toList.dropWhile (· != '*') with
  | nil =>
    rw [hdrop] at h
    cases h
  | cons c cs =>
    rw [hdrop] at h happend
    obtain ⟨rfl, rfl⟩ := Prod.mk.inj (Option.some.inj h)
    have hstar : c = '*' := by
      have := List.head?_dropWhile_not (· != '*') s.toList
      rw [hdrop] at this
      simpa using this
    constructor
    · rw [← String.toList_inj]
      simpa [hstar] using happend.symm
    · intro hmem
      rw [String.toList_ofList] at hmem
      simpa using List.mem_takeWhile_imp hmem

theorem splitStar_eq_none {s : String} (h : splitStar s = none) : '*' ∉ s.toList := by
  intro hmem
  obtain ⟨before, after, hsplit, hfirst⟩ := List.eq_append_cons_of_mem hmem
  have hs : s = String.ofList before ++ "*" ++ String.ofList after := by
    rw [← String.toList_inj, hsplit]
    simp
  rw [hs, splitStar_append (by simpa using hfirst)] at h
  cases h

theorem hasTarget_iff (value : Json) :
    hasTarget value = true ↔ (value.arr?.getD []).filterMap Json.str? ≠ [] := by
  simp [hasTarget, List.filterMap_eq_nil_iff, Option.isSome_iff_ne_none]

theorem ofMember?_eq_none_iff (base key : String) (value : Json) :
    ofMember? base key value = none ↔ hasTarget value = false := by
  rw [Bool.eq_false_iff, Ne, hasTarget_iff, not_not]
  unfold ofMember?
  cases (value.arr?.getD []).filterMap Json.str? with
  | nil => simp
  | cons target targets =>
    simp only [List.map_cons, reduceCtorEq, iff_false]
    cases splitStar key <;> simp

theorem declared_iff (base : String) (member : String × Json) (a : Alias) :
    Declared base member a ↔ ofMember? base member.1 member.2 = some a := by
  obtain ⟨key, value⟩ := member
  constructor
  · rintro ⟨htargets, hsome, hlead, hkey⟩
    obtain ⟨lead, trail, targets, wildcard⟩ := a
    simp only at htargets hsome hlead hkey
    unfold ofMember?
    rw [← htargets]
    cases targets with
    | nil => exact absurd rfl hsome
    | cons target targets =>
      rcases hkey with ⟨rfl, rfl⟩ | ⟨rfl, rfl, rfl⟩
      · simp only [splitStar_append hlead]
      · cases hstar : splitStar key with
        | none => rfl
        | some parts =>
          obtain ⟨before, after⟩ := parts
          have hparts := (splitStar_eq_some hstar).1
          exact absurd (by rw [hparts]; simp) hlead
  · intro h
    unfold ofMember? at h
    cases htargets : ((value.arr?.getD []).filterMap Json.str?).map (targetPath base) with
    | nil =>
      rw [htargets] at h
      cases h
    | cons target targets =>
      rw [htargets] at h
      cases hstar : splitStar key with
      | none =>
        rw [hstar] at h
        cases h
        exact ⟨htargets.symm, by simp, splitStar_eq_none hstar, .inr ⟨rfl, rfl, rfl⟩⟩
      | some parts =>
        obtain ⟨before, after⟩ := parts
        rw [hstar] at h
        cases h
        have hparts := splitStar_eq_some hstar
        exact ⟨htargets.symm, by simp, hparts.2, .inl ⟨rfl, hparts.1⟩⟩

/-- The aliases of a table stand in the order of its keys. -/
theorem forall₂_declared_iff (base : String) (paths : List (String × Json)) (aliases : List Alias) :
    List.Forall₂ (Declared base) (paths.filter fun m => hasTarget m.2) aliases ↔
      paths.filterMap (fun (key, value) => ofMember? base key value) = aliases := by
  induction paths generalizing aliases with
  | nil =>
    rw [List.filter_nil, List.forall₂_nil_left_iff]
    exact eq_comm
  | cons member paths ih =>
    obtain ⟨key, value⟩ := member
    by_cases htarget : hasTarget value = true
    · rw [List.filter_cons, if_pos htarget, List.forall₂_cons_left_iff]
      cases hmember : ofMember? base key value with
      | none =>
        rw [ofMember?_eq_none_iff, htarget] at hmember
        cases hmember
      | some a =>
        simp only [List.filterMap_cons, hmember, declared_iff, Option.some.injEq, ih]
        constructor
        · rintro ⟨_, _, rfl, rfl, rfl⟩
          rfl
        · rintro rfl
          exact ⟨a, _, rfl, rfl, rfl⟩
    · have hnone := (ofMember?_eq_none_iff base key value).2 (Bool.eq_false_iff.2 htarget)
      rw [List.filter_cons, if_neg htarget, ih, List.filterMap_cons]
      simp only [hnone]

/-! ## Documents -/

/-- The table under a key; without the key, or with another value under it, an empty one. -/
def tableAt (members : List (String × Json)) (key : String) : List (String × Json) :=
  ((Json.lookup members key).bind Json.obj?).getD []

/-- The members of a document; one that is missing, cannot be read or is no table has none. -/
def membersOf : Option String → List (String × Json)
  | none => []
  | some text =>
    match Json.read (Json.stripComments text) with
    | .ok (.obj members) => members
    | _ => []

def optionsOf (document : Option String) : List (String × Json) :=
  tableAt (membersOf document) "compilerOptions"

def usablePaths (document : Option String) : List (String × Json) :=
  (tableAt (optionsOf document) "paths").filter fun m => hasTarget m.2

/-- The directory that targets are seen from; it is written as a text whatever value it has. -/
def baseOf (options : List (String × Json)) : String :=
  canonical (join "" (dropLeadingSlashes
    (((Json.present? (Json.lookup options "baseUrl")).map Json.display).getD ".")))

/-- The documents that stop the reading: those beyond the limits of the reader, and those whose options
are a value that is neither a table nor counts as absent. -/
inductive Breaks : Option String → MappingError → Prop
  | nesting {text : String} (h : Json.read (Json.stripComments text) = .error .tooDeep) :
      Breaks (some text) .tooDeep
  | digits {text : String} (h : Json.read (Json.stripComments text) = .error .tooLong) :
      Breaks (some text) .tooLong
  | options {text : String} {members : List (String × Json)} {value : Json}
      (h : Json.read (Json.stripComments text) = .ok (.obj members))
      (hvalue : Json.lookup members "compilerOptions" = some value) (hpresent : value.isBlank = false)
      (htable : value.obj? = none) : Breaks (some text) .notATable

/-- A document that does not stop the reading declares the aliases that its usable paths make. -/
structure Declares (document : Option String) (aliases : List Alias) : Prop where
  sound : ∀ e, ¬ Breaks document e
  entries : List.Forall₂ (Declared (baseOf (optionsOf document))) (usablePaths document) aliases

theorem not_breaks_none (e : MappingError) : ¬ Breaks none e := by
  intro h
  cases h

theorem not_breaks {text : String} (hdeep : Json.read (Json.stripComments text) ≠ .error .tooDeep)
    (hlong : Json.read (Json.stripComments text) ≠ .error .tooLong)
    (hoptions : ∀ members value, Json.read (Json.stripComments text) = .ok (.obj members) →
      Json.lookup members "compilerOptions" = some value → value.isBlank = true ∨ value.obj?.isSome = true)
    (e : MappingError) : ¬ Breaks (some text) e := by
  intro h
  cases h with
  | nesting h => exact hdeep h
  | digits h => exact hlong h
  | options h hvalue hpresent htable =>
    rcases hoptions _ _ h hvalue with hblank | hsome
    · rw [hpresent] at hblank
      cases hblank
    · rw [htable] at hsome
      cases hsome

theorem declares_nil {document : Option String} (hsound : ∀ e, ¬ Breaks document e)
    (h : tableAt (optionsOf document) "paths" = []) : Declares document [] := by
  refine ⟨hsound, ?_⟩
  rw [usablePaths, h]
  exact .nil

theorem tableAt_nil (key : String) : tableAt [] key = [] := rfl

theorem tableAt_of_present?_eq_none {members : List (String × Json)} {key : String}
    (h : Json.present? (Json.lookup members key) = none) : tableAt members key = [] := by
  unfold tableAt
  cases hvalue : Json.lookup members key with
  | none => rfl
  | some value =>
    rw [hvalue] at h
    cases value with
    | obj inner =>
      cases inner with
      | nil => rfl
      | cons m inner => cases h
    | _ => rfl

theorem ofConfig_of_options {members options : List (String × Json)}
    (h : Json.present? (Json.lookup members "compilerOptions") = some (.obj options)) :
    ofConfig (.obj members) "" = .ok ((tableAt options "paths").filterMap
      fun (key, value) => ofMember? (baseOf options) key value) := by
  simp only [ofConfig, h, tableAt]
  cases Json.lookup options "paths" with
  | none => rfl
  | some value => cases value <;> rfl

/-- What a table declares depends on its options. -/
theorem ofConfig_cases {text : String} {members : List (String × Json)}
    (h : Json.read (Json.stripComments text) = .ok (.obj members)) :
    (∃ e, ofConfig (.obj members) "" = .error e ∧ Breaks (some text) e) ∨
    ∃ aliases, ofConfig (.obj members) "" = .ok aliases ∧ Declares (some text) aliases := by
  have htable : optionsOf (some text) = tableAt members "compilerOptions" := by
    rw [optionsOf, membersOf, h]
  have hsound : (∀ value, Json.lookup members "compilerOptions" = some value →
      value.isBlank = true ∨ value.obj?.isSome = true) → ∀ e, ¬ Breaks (some text) e := by
    intro hvalue
    apply not_breaks
    · simp [h]
    · simp [h]
    · intro other value hother
      cases h.symm.trans hother
      exact hvalue value
  cases hpresent : Json.present? (Json.lookup members "compilerOptions") with
  | none =>
    right
    refine ⟨[], by simp only [ofConfig, hpresent], declares_nil (hsound ?_) ?_⟩
    · intro value hvalue
      rw [hvalue] at hpresent
      exact .inl (by simpa [Json.present?] using hpresent)
    · rw [htable, tableAt_of_present?_eq_none hpresent, tableAt_nil]
  | some value =>
    obtain ⟨found, hlookup, hfound⟩ := Option.bind_eq_some_iff.1 hpresent
    by_cases hblank : found.isBlank = true
    · rw [if_pos hblank] at hfound
      cases hfound
    · rw [if_neg hblank, Option.some.injEq] at hfound
      subst hfound
      cases hvalue : found with
      | obj options =>
        right
        rw [hvalue] at hlookup hpresent
        have hoptions : optionsOf (some text) = options := by
          rw [htable, tableAt, hlookup]
          rfl
        refine ⟨_, ofConfig_of_options hpresent, hsound ?_, ?_⟩
        · intro value hother
          cases hlookup.symm.trans hother
          exact .inr rfl
        · rw [usablePaths, hoptions, forall₂_declared_iff]
      | _ =>
        left
        rw [hvalue] at hlookup hpresent hblank
        exact ⟨.notATable, by simp only [ofConfig, hpresent],
          .options h hlookup (Bool.eq_false_iff.2 hblank) rfl⟩

/-- Either the document stops the reading, or its usable paths are what it declares. -/
theorem ofDocument_cases (text : String) :
    (∃ e, ofDocument text = .error e ∧ Breaks (some text) e) ∨
    ∃ aliases, ofDocument text = .ok aliases ∧ Declares (some text) aliases := by
  unfold ofDocument
  have hnothing : membersOf (some text) = [] → (∀ e, ¬ Breaks (some text) e) →
      ∃ aliases, (.ok [] : Except MappingError (List Alias)) = .ok aliases ∧
        Declares (some text) aliases := by
    intro hmembers hsound
    refine ⟨[], rfl, declares_nil hsound ?_⟩
    rw [optionsOf, hmembers, tableAt_nil, tableAt_nil]
  cases hread : Json.read (Json.stripComments text) with
  | error k =>
    cases k with
    | malformed => exact .inr (hnothing (by simp [membersOf, hread]) (not_breaks (by simp [hread])
        (by simp [hread]) (by simp [hread])))
    | tooDeep => exact .inl ⟨_, rfl, .nesting hread⟩
    | tooLong => exact .inl ⟨_, rfl, .digits hread⟩
  | ok value =>
    cases value with
    | obj members => exact ofConfig_cases hread
    | _ => exact .inr (hnothing (by simp [membersOf, hread]) (not_breaks (by simp [hread])
        (by simp [hread]) (by simp [hread])))

theorem ofDocument_of_breaks {text : String} {e : MappingError} (h : Breaks (some text) e) :
    ofDocument text = .error e := by
  cases h with
  | nesting h => simp only [ofDocument, h]
  | digits h => simp only [ofDocument, h]
  | options h hvalue hpresent htable =>
    rename_i members value
    have hsome : Json.present? (Json.lookup members "compilerOptions") = some value := by
      simp [hvalue, Json.present?, hpresent]
    cases value with
    | obj options => cases htable
    | _ => simp only [ofDocument, h, ofConfig, hsome]

theorem Declares.unique {document : Option String} {aliases aliases' : List Alias}
    (h : Declares document aliases) (h' : Declares document aliases') : aliases = aliases' := by
  have hentries := h.entries
  have hentries' := h'.entries
  rw [usablePaths, forall₂_declared_iff] at hentries hentries'
  exact hentries.symm.trans hentries'

theorem ofDocument_eq_error_iff (text : String) (e : MappingError) :
    ofDocument text = .error e ↔ Breaks (some text) e := by
  refine ⟨fun h => ?_, ofDocument_of_breaks⟩
  rcases ofDocument_cases text with ⟨e', herror, hbreaks⟩ | ⟨aliases, hok, -⟩
  · cases h.symm.trans herror
    exact hbreaks
  · cases h.symm.trans hok

theorem ofDocument_eq_ok_iff (text : String) (aliases : List Alias) :
    ofDocument text = .ok aliases ↔ Declares (some text) aliases := by
  rcases ofDocument_cases text with ⟨e, herror, hbreaks⟩ | ⟨aliases', hok, hdeclares⟩
  · rw [herror]
    constructor
    · intro h
      cases h
    · intro h
      exact absurd hbreaks (h.sound e)
  · rw [hok, Except.ok.injEq]
    constructor
    · intro h
      exact h ▸ hdeclares
    · exact hdeclares.unique

/-! ## The files of a project -/

theorem declares_none_iff (aliases : List Alias) : Declares none aliases ↔ aliases = [] := by
  have hnone : Declares none [] := declares_nil not_breaks_none rfl
  constructor
  · exact fun h => h.unique hnone
  · rintro rfl
    exact hnone

section
variable (files : List (String × String)) (name : String) (names : List String)

theorem firstDeclared_cons_eq_error_iff (e : MappingError) :
    firstDeclared files (name :: names) = .error e ↔ Breaks (files.lookup name) e ∨
      Declares (files.lookup name) [] ∧ firstDeclared files names = .error e := by
  rw [firstDeclared]
  cases files.lookup name with
  | none => simp [not_breaks_none, declares_none_iff]
  | some text =>
    rw [← ofDocument_eq_error_iff, ← ofDocument_eq_ok_iff]
    cases hdocument : ofDocument text with
    | error e' => simp [hdocument]
    | ok aliases => cases aliases <;> simp [hdocument]

theorem firstDeclared_cons_eq_ok_iff (aliases : List Alias) :
    firstDeclared files (name :: names) = .ok aliases ↔
      aliases ≠ [] ∧ Declares (files.lookup name) aliases ∨
      Declares (files.lookup name) [] ∧ firstDeclared files names = .ok aliases := by
  rw [firstDeclared]
  cases files.lookup name with
  | none => simp [declares_none_iff]
  | some text =>
    rw [← ofDocument_eq_ok_iff, ← ofDocument_eq_ok_iff]
    cases hdocument : ofDocument text with
    | error e' => simp [hdocument]
    | ok found =>
      cases found with
      | nil =>
        simp only [hdocument, Except.ok.injEq, true_and]
        constructor
        · exact .inr
        · rintro (⟨hne, hnil⟩ | hrest)
          · exact absurd hnil.symm hne
          · exact hrest
      | cons a found =>
        simp only [hdocument, Except.ok.injEq, reduceCtorEq, false_and, or_false]
        constructor
        · rintro rfl
          exact ⟨List.cons_ne_nil _ _, rfl⟩
        · exact fun h => h.2

end

/-- The aliases of a project are those that the usable paths of the first file make, or of the second one if
the first has no usable path. A file that cannot be used in any part declares nothing, unless it is beyond
the limits of the reader or its options are a value of another type: then there is no table at all. -/
theorem ofFiles_outcome (files : List (String × String)) :
    (∀ aliases, ofFiles files = .ok aliases ↔
      aliases ≠ [] ∧ Declares (files.lookup "tsconfig.json") aliases ∨
      Declares (files.lookup "tsconfig.json") [] ∧ Declares (files.lookup "jsconfig.json") aliases) ∧
    (∀ e, ofFiles files = .error e ↔ Breaks (files.lookup "tsconfig.json") e ∨
      Declares (files.lookup "tsconfig.json") [] ∧ Breaks (files.lookup "jsconfig.json") e) ∧
    ((∃ aliases, ofFiles files = .ok aliases) ↔ (∀ e, ¬ Breaks (files.lookup "tsconfig.json") e) ∧
      (Declares (files.lookup "tsconfig.json") [] → ∀ e, ¬ Breaks (files.lookup "jsconfig.json") e)) := by
  have hlast : ∀ aliases, firstDeclared files ["jsconfig.json"] = .ok aliases ↔
      Declares (files.lookup "jsconfig.json") aliases := by
    intro aliases
    rw [firstDeclared_cons_eq_ok_iff, firstDeclared, Except.ok.injEq]
    constructor
    · rintro (⟨-, h⟩ | ⟨h, rfl⟩)
      · exact h
      · exact h
    · intro h
      by_cases hnil : aliases = []
      · subst hnil
        exact .inr ⟨h, rfl⟩
      · exact .inl ⟨hnil, h⟩
  have herror : ∀ e, ofFiles files = .error e ↔ Breaks (files.lookup "tsconfig.json") e ∨
      Declares (files.lookup "tsconfig.json") [] ∧ Breaks (files.lookup "jsconfig.json") e := by
    intro e
    rw [ofFiles, mappingFiles, firstDeclared_cons_eq_error_iff, firstDeclared_cons_eq_error_iff,
      firstDeclared]
    simp
  refine ⟨fun aliases => ?_, herror, ?_⟩
  · rw [ofFiles, mappingFiles, firstDeclared_cons_eq_ok_iff, hlast]
  · cases hfiles : ofFiles files with
    | error e =>
      simp only [reduceCtorEq, exists_false, false_iff, not_and, not_forall]
      intro hfirst
      rcases (herror e).1 hfiles with h | ⟨hdeclares, h⟩
      · exact absurd h (hfirst e)
      · exact ⟨hdeclares, e, not_not.2 h⟩
    | ok aliases =>
      simp only [hfiles, reduceCtorEq, false_iff, not_or, not_and] at herror
      simp only [Except.ok.injEq, exists_eq', true_iff]
      exact ⟨fun e => (herror e).1, fun h e => (herror e).2 h⟩

/-- Options that are a list take the second file with them. -/
theorem ofFiles_of_options_in_list :
    let second : String × String :=
      ("jsconfig.json", r#"{"compilerOptions": {"paths": {"~/*": ["lib/*"]}}}"#)
    ofFiles [("tsconfig.json", r#"{"compilerOptions": [1]}"#), second] = .error .notATable ∧
    ofFiles [("tsconfig.json", r#"{"compilerOptions": []}"#), second] =
      .ok [{ lead := "~/", trail := "", targets := ["lib"] }] ∧
    ofFiles [("tsconfig.json", "\x7b not json"), second] =
      .ok [{ lead := "~/", trail := "", targets := ["lib"] }] := by
  decide +kernel

end CodeAtlas.Alias
