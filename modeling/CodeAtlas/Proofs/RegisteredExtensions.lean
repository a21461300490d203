import CodeAtlas.Language
import CodeAtlas.Proofs.LowerCase
import Mathlib.Data.List.TakeWhile

/-!
# Extensions given to pattern languages

A file is looked up by what stands from the last dot of its name on. So an extension with one dot, in
front, is found in every file that bears it, in any letter case, until it is given away again; one
with more dots is put into the table and never looked up (`detect_of_session`).
-/

namespace CodeAtlas.ExtensionTable

open CodeAtlas.Text

/-! ## Tables -/

theorem find?_replace (table : ExtensionTable) (extension language key : String) :
    find? (table.map fun entry => if entry.1 == extension then (extension, language) else entry) key =
      if key = extension ∧ table.any (·.1 == extension) = true then some language
      else find? table key := by
  induction table with
  | nil => simp [find?]
  | cons entry table ih =>
    unfold find? at ih ⊢
    rw [List.map_cons, List.find?_cons, List.find?_cons, List.any_cons]
    by_cases hentry : entry.1 = extension
    · subst hentry
      by_cases hkey : key = entry.1
      · simp [hkey]
      · have hne : (entry.1 == key) = false := by simpa using Ne.symm hkey
        simp only [beq_self_eq_true, if_true, hne, hkey, false_and, if_false] at ih ⊢
        exact ih
    · have hne : (entry.1 == extension) = false := by simpa using hentry
      simp only [hne, Bool.false_or, if_neg Bool.false_ne_true]
      by_cases hkey : entry.1 = key
      · have : key ≠ extension := hkey ▸ hentry
        simp [hkey, this]
      · have : (entry.1 == key) = false := by simpa using hkey
        simp only [this, ih]

theorem find?_eq_none_iff (table : ExtensionTable) (key : String) :
    find? table key = none ↔ table.any (·.1 == key) = false := by
  simp [find?]

theorem find?_of_register {table table' : ExtensionTable} {extension language : String}
    (h : register table extension language = .ok table') (key : String) :
    find? table' key =
      if key = normalExtension extension then some language else find? table key := by
  unfold register at h
  generalize normalExtension extension = e at h ⊢
  dsimp only at h
  by_cases hscript : (find? scriptExtensions e).isSome = true
  · rw [if_pos hscript] at h
    cases h
  · rw [if_neg hscript] at h
    by_cases hany : table.any (·.1 == e) = true
    · rw [if_pos hany] at h
      cases h
      simp only [find?_replace, hany, and_true]
    · rw [if_neg hany] at h
      cases h
      have hnone := (find?_eq_none_iff table e).mpr (Bool.eq_false_iff.mpr hany)
      unfold find? at hnone ⊢
      rw [List.find?_append, List.find?_singleton]
      by_cases hkey : key = e
      · subst hkey
        simp [Option.map_eq_none_iff.mp hnone]
      · have hne : ¬ (e == key) = true := by simpa using Ne.symm hkey
        rw [if_neg hne, Option.or_none, if_neg hkey]

theorem register_eq_error_iff (table : ExtensionTable) (extension language : String) (e : RegisterError) :
    register table extension language = .error e ↔
      (find? scriptExtensions (normalExtension extension)).isSome = true ∧
        e = .handledByTree (normalExtension extension) := by
  unfold register
  dsimp only
  by_cases hscript : (find? scriptExtensions (normalExtension extension)).isSome = true
  · rw [if_pos hscript]
    simp [hscript, eq_comm]
  · rw [if_neg hscript]
    split <;> simp [hscript]

theorem find?_script_of_register {table table' : ExtensionTable} {extension language : String}
    (h : register table extension language = .ok table') :
    find? scriptExtensions (normalExtension extension) = none := by
  by_contra hsome
  have herror := (register_eq_error_iff table extension language _).mpr
    ⟨Option.isSome_iff_ne_none.mpr hsome, rfl⟩
  rw [h] at herror
  cases herror

/-! ## Extensions of paths -/

theorem normalExtension_eq (extension : String) :
    ∃ cs, (normalExtension extension).toList = '.' :: cs ∧ ∀ c ∈ cs, IsLower c := by
  unfold normalExtension
  dsimp only
  split
  · rename_i hstart
    obtain ⟨cs, hcs⟩ := String.startsWith_string_iff.1 hstart
    refine ⟨cs, hcs.symm, fun c hc => isLower_of_mem_lower (s := extension) ?_⟩
    rw [← hcs]
    exact List.mem_append_right _ hc
  · refine ⟨(lower extension).toList, by simp, fun c hc => isLower_of_mem_lower hc⟩

theorem lower_normalExtension (extension : String) :
    lower (normalExtension extension) = normalExtension extension := by
  obtain ⟨cs, hcs, hlower⟩ := normalExtension_eq extension
  refine lower_of_isLower ?_
  rw [hcs]
  exact List.forall_mem_cons.mpr ⟨by decide, hlower⟩

/-- The base name ends in the text, behind a stem with more than dots in it. -/
def Bears (path ending : String) : Prop :=
  ∃ stem : String, Path.basename path = stem ++ ending ∧ ∃ c ∈ stem.toList, c ≠ '.'

def SameLetters (s t : String) : Prop :=
  lower s = lower t

instance (s t : String) : Decidable (SameLetters s t) :=
  inferInstanceAs (Decidable (lower s = lower t))

theorem extension_of_last_dot {path : String} {stem tail : List Char}
    (h : (Path.basename path).toList = stem ++ '.' :: tail) (hstem : ∃ c ∈ stem, c ≠ '.')
    (htail : '.' ∉ tail) : Path.extension path = String.ofList ('.' :: tail) := by
  have hlast : ((stem ++ '.' :: tail).reverse.takeWhile (· != '.')).reverse = tail := by
    have hall : ∀ c ∈ tail.reverse, (c != '.') = true := by
      intro c hc
      rw [bne_iff_ne]
      rintro rfl
      exact htail (List.mem_reverse.mp hc)
    rw [List.reverse_append, List.reverse_cons, List.append_assoc, List.takeWhile_append_of_pos hall]
    simp
  have hlength : (stem ++ '.' :: tail).length - tail.length - 1 = stem.length := by
    rw [List.length_append, List.length_cons]
    omega
  have hany : stem.any (· != '.') = true := by simpa using hstem
  unfold Path.extension
  simp only [h, hlast, hlength, List.take_left, hany, Bool.and_true]
  rw [if_pos (by simp)]

theorem count_dot_extension (path : String) : (Path.extension path).toList.count '.' ≤ 1 := by
  unfold Path.extension
  dsimp only
  split
  · rw [String.toList_ofList, List.count_cons_self, List.count_eq_zero.mpr]
    intro hmem
    simpa using List.mem_takeWhile_imp (List.mem_reverse.mp hmem)
  · simp

theorem Bears.extension_eq {path ending : String} (h : Bears path ending) {cs : List Char}
    (hstart : ending.toList = '.' :: cs) (hcount : ending.toList.count '.' = 1) :
    Path.extension path = ending := by
  obtain ⟨stem, hname, hstem⟩ := h
  have htail : '.' ∉ cs := by
    rw [hstart, List.count_cons_self] at hcount
    exact List.count_eq_zero.mp (by omega)
  rw [extension_of_last_dot (by rw [hname, String.toList_append, hstart]) hstem htail, ← hstart,
    String.ofList_toList]

/-- A file that bears an extension with one dot is looked up by it. -/
theorem Bears.lower_extension {path ending e : String} (h : Bears path ending)
    (hletters : SameLetters ending e) (he : lower e = e) {cs : List Char} (hstart : e.toList = '.' :: cs)
    (hcount : e.toList.count '.' = 1) : lower (Path.extension path) = e := by
  have hlower : lower ending = e := hletters.trans he
  rw [← hlower] at hstart hcount
  rw [count_dot_lower] at hcount
  obtain ⟨rest, hrest⟩ := lower_starts_with_dot hstart
  rw [h.extension_eq hrest hcount, hlower]

/-! ## What is chosen -/

theorem detect_of_script {table : ExtensionTable} {path language : String}
    (h : find? scriptExtensions (lower (Path.extension path)) = some language) :
    detect table path = ⟨.tree, some language⟩ := by
  unfold detect
  simp only [h]

theorem detect_of_find? {table : ExtensionTable} {path e language : String}
    (he : lower (Path.extension path) = e) (hne : e ≠ "") (hscript : find? scriptExtensions e = none)
    (h : find? table e = some language) : detect table path = ⟨.patterns, some language⟩ := by
  have hempty : e.isEmpty = false := by simpa using hne
  unfold detect
  simp only [he, hscript, h, hempty, Bool.false_eq_true, if_false]

theorem detect_congr {table table' : ExtensionTable} {path : String}
    (h : find? table (lower (Path.extension path)) = find? table' (lower (Path.extension path))) :
    detect table path = detect table' path := by
  unfold detect
  simp only [h]

/-! ## Sessions -/

def afterCall (table : ExtensionTable) (call : String × String) : ExtensionTable :=
  (register table call.1 call.2).toOption.getD table

def afterCalls (table : ExtensionTable) (calls : List (String × String)) : ExtensionTable :=
  calls.foldl afterCall table

theorem afterCalls_cons (table : ExtensionTable) (call : String × String) (later : List (String × String)) :
    afterCalls table (call :: later) = afterCalls (afterCall table call) later := by
  rw [afterCalls, List.foldl_cons, afterCalls]

theorem afterCall_of_ok {table table' : ExtensionTable} {extension language : String}
    (h : register table extension language = .ok table') :
    afterCall table (extension, language) = table' := by
  rw [afterCall, h, Except.toOption, Option.getD_some]

theorem afterCall_of_error {table : ExtensionTable} {extension language : String} {e : RegisterError}
    (h : register table extension language = .error e) :
    afterCall table (extension, language) = table := by
  rw [afterCall, h, Except.toOption, Option.getD_none]

theorem find?_afterCall (table : ExtensionTable) (call : String × String) (key : String) :
    find? (afterCall table call) key =
      if key = normalExtension call.1 ∧ find? scriptExtensions key = none then some call.2
      else find? table key := by
  obtain ⟨extension, language⟩ := call
  cases hcall : register table extension language with
  | error e =>
    obtain ⟨hscript, -⟩ := (register_eq_error_iff table extension language e).mp hcall
    rw [afterCall_of_error hcall, if_neg]
    rintro ⟨rfl, hnone⟩
    simp [hnone] at hscript
  | ok table' =>
    rw [afterCall_of_ok hcall, find?_of_register hcall]
    by_cases hkey : key = normalExtension extension
    · rw [if_pos hkey, if_pos ⟨hkey, hkey ▸ find?_script_of_register hcall⟩]
    · rw [if_neg hkey, if_neg fun h => hkey h.1]

/-- Calls for other extensions change nothing about this one. -/
theorem find?_afterCalls_of_others (later : List (String × String)) (table : ExtensionTable)
    {key : String} (h : ∀ call ∈ later, normalExtension call.1 ≠ key) :
    find? (afterCalls table later) key = find? table key := by
  induction later generalizing table with
  | nil => rfl
  | cons call later ih =>
    obtain ⟨hcall, hlater⟩ := List.forall_mem_cons.mp h
    have hstep : find? (afterCall table call) key = find? table key := by
      rw [find?_afterCall, if_neg fun h => hcall h.1.symm]
    rw [afterCalls_cons, ih (afterCall table call) hlater, hstep]

/-- The same calls keep two tables alike at a key. -/
theorem find?_afterCalls_congr (later : List (String × String)) {table table' : ExtensionTable}
    {key : String} (h : find? table key = find? table' key) :
    find? (afterCalls table later) key = find? (afterCalls table' later) key := by
  induction later generalizing table table' with
  | nil => exact h
  | cons call later ih =>
    rw [afterCalls_cons, afterCalls_cons]
    refine ih ?_
    rw [find?_afterCall, find?_afterCall, h]

/-- Until the extension is given away again, the files that bear it are read in the language. -/
def TakesEffect (table : ExtensionTable) (e language : String) : Prop :=
  ∀ later : List (String × String), (∀ call ∈ later, normalExtension call.1 ≠ e) →
    ∀ path ending, Bears path ending → SameLetters ending e →
      (afterCalls table later).detect path = ⟨.patterns, some language⟩

/-- No file is read in another way with the second table than with the first, now or later. -/
def Indistinct (table table' : ExtensionTable) : Prop :=
  ∀ (later : List (String × String)) (path : String),
    (afterCalls table' later).detect path = (afterCalls table later).detect path

theorem mem_scriptExtensions_iff (key grammar : String) :
    (key, grammar) ∈ scriptExtensions ↔ find? scriptExtensions key = some grammar := by
  have hall : ∀ entry ∈ scriptExtensions, find? scriptExtensions entry.1 = some entry.2 := by decide
  refine ⟨hall (key, grammar), fun h => ?_⟩
  obtain ⟨entry, hfind, rfl⟩ := Option.map_eq_some_iff.mp h
  have hkey : entry.1 = key := by simpa using List.find?_some hfind
  rw [← hkey]
  exact List.mem_of_find?_eq_some hfind

theorem takesEffect_of_register {table table' : ExtensionTable} {extension language : String}
    (h : register table extension language = .ok table')
    (hcount : (normalExtension extension).toList.count '.' = 1) :
    TakesEffect table' (normalExtension extension) language := by
  intro later hlater path ending hbears hletters
  obtain ⟨cs, hstart, -⟩ := normalExtension_eq extension
  have hpath := hbears.lower_extension hletters (lower_normalExtension extension) hstart hcount
  refine detect_of_find? hpath ?_ (find?_script_of_register h) ?_
  · intro hempty
    rw [hempty] at hstart
    cases hstart
  · rw [find?_afterCalls_of_others later table' hlater, find?_of_register h, if_pos rfl]

theorem indistinct_of_register {table table' : ExtensionTable} {extension language : String}
    (h : register table extension language = .ok table')
    (hcount : (normalExtension extension).toList.count '.' ≠ 1) : Indistinct table table' := by
  intro later path
  refine detect_congr (find?_afterCalls_congr later ?_)
  rw [find?_of_register h, if_neg]
  intro hkey
  -- a path has at most one dot in its extension, and one that is in a table has one in front
  obtain ⟨cs, hstart, -⟩ := normalExtension_eq extension
  have hone := count_dot_extension path
  rw [← count_dot_lower, hkey] at hone
  rw [hstart, List.count_cons_self] at hone hcount
  omega

theorem detect_of_scriptExtension (table : ExtensionTable) {path ending key grammar : String}
    (hkey : (key, grammar) ∈ scriptExtensions) (hbears : Bears path ending)
    (hletters : SameLetters ending key) : detect table path = ⟨.tree, some grammar⟩ := by
  have hall : ∀ entry ∈ scriptExtensions, lower entry.1 = entry.1 ∧
      entry.1.toList = '.' :: entry.1.toList.tail ∧ entry.1.toList.count '.' = 1 := by decide
  obtain ⟨hlower, hstart, hcount⟩ := hall _ hkey
  refine detect_of_script ?_
  rw [hbears.lower_extension hletters hlower hstart hcount]
  exact (mem_scriptExtensions_iff key grammar).mp hkey

theorem detect_of_session (start : ExtensionTable) (earlier : List (String × String))
    (extension language : String) :
    let table := afterCalls start earlier
    let e := normalExtension extension
    ((∃ grammar, (e, grammar) ∈ scriptExtensions) ∧
        register table extension language = .error (.handledByTree e) ∧
        afterCall table (extension, language) = table ∨
      (∀ grammar, (e, grammar) ∉ scriptExtensions) ∧
        ∃ table', register table extension language = .ok table' ∧
          afterCall table (extension, language) = table' ∧
          (e.toList.count '.' = 1 → TakesEffect table' e language) ∧
          (e.toList.count '.' ≠ 1 → Indistinct table table')) ∧
    ∀ path ending key grammar, (key, grammar) ∈ scriptExtensions → Bears path ending →
      SameLetters ending key → table.detect path = ⟨.tree, some grammar⟩ := by
  intro table e
  refine ⟨?_, fun path ending key grammar => detect_of_scriptExtension table⟩
  simp only [mem_scriptExtensions_iff]
  cases hcall : register table extension language with
  | error error =>
    obtain ⟨hscript, rfl⟩ := (register_eq_error_iff table extension language error).mp hcall
    exact .inl ⟨Option.isSome_iff_exists.mp hscript, rfl, afterCall_of_error hcall⟩
  | ok table' =>
    refine .inr ⟨fun grammar h => ?_, table', rfl, afterCall_of_ok hcall, takesEffect_of_register hcall,
      indistinct_of_register hcall⟩
    have hnone := find?_script_of_register hcall
    rw [h] at hnone
    cases hnone

/-- A call that is refused, one for stub files, and two for other extensions. -/
theorem detect_of_stub_files :
    let table := afterCalls builtinExtensions [(".ts", "python")]
    let later := [("d.ts", "component"), ("PY", "ruby")]
    table = builtinExtensions ∧ Bears "stubs/Mod.PYI" ".PYI" ∧
    (afterCalls (afterCall table ("PyI", "python")) later).detect "stubs/Mod.PYI" =
      ⟨.patterns, some "python"⟩ ∧
    table.detect "src/App.d.TSX" = ⟨.tree, some "tsx"⟩ := by
  intro table later
  have hkey : normalExtension "PyI" = ".pyi" := by decide +kernel
  have hbears : Bears "stubs/Mod.PYI" ".PYI" := ⟨"Mod", by decide, 'M', by decide, by decide⟩
  have hscript : Bears "src/App.d.TSX" ".TSX" := ⟨"App.d", by decide, 'A', by decide, by decide⟩
  obtain ⟨hcall, htree⟩ := detect_of_session builtinExtensions [(".ts", "python")] "PyI" "python"
  refine ⟨by decide +kernel, hbears, ?_, htree _ _ ".tsx" "tsx" (by decide) hscript (by decide +kernel)⟩
  rcases hcall with ⟨⟨grammar, hgrammar⟩, -⟩ | ⟨-, table', -, hafter, hone, -⟩
  · rw [hkey, mem_scriptExtensions_iff] at hgrammar
    cases hgrammar
  · rw [hafter]
    refine hone ?_ later ?_ _ _ hbears ?_ <;>
    · rw [hkey]
      decide +kernel

theorem detect_of_double_extension :
    ∃ table, register builtinExtensions ".html.erb" "ruby" = .ok table ∧
      Bears "app/show.html.erb" ".html.erb" ∧
      SameLetters ".html.erb" (normalExtension ".html.erb") ∧
      table.detect "app/show.html.erb" = ⟨.unsupported, none⟩ ∧
      ¬ TakesEffect table (normalExtension ".html.erb") "ruby" := by
  have hkey : normalExtension ".html.erb" = ".html.erb" := by decide +kernel
  have hbears : Bears "app/show.html.erb" ".html.erb" := ⟨"show", by decide, 's', by decide, by decide⟩
  have hfound : (builtinExtensions ++ [(".html.erb", "ruby")]).detect "app/show.html.erb" =
      ⟨.unsupported, none⟩ := by decide +kernel
  have hletters : SameLetters ".html.erb" (normalExtension ".html.erb") := by rw [hkey]; rfl
  refine ⟨builtinExtensions ++ [(".html.erb", "ruby")], by decide +kernel, hbears, hletters, hfound, ?_⟩
  intro heffect
  have hread := heffect [] (by simp) _ _ hbears hletters
  rw [afterCalls, List.foldl_nil, hfound] at hread
  cases hread

end CodeAtlas.ExtensionTable
