import CodeAtlas.Proofs.ExportIndex

/-!
# Chains of re-exports

A file can pass a name on to another file, under the same name or another. The lookup of a name finds
a record exactly if a chain of such steps, no longer than the bound, ends at an indexed name
(`lookupFrom_isSome_iff_chain`). Files that pass names on in a circle do no harm, since each step of the
search uses up one of the bound.
-/

namespace CodeAtlas

/-! ## Steps and chains -/

inductive Specifier.Passes (s : Specifier) (name : String) : String → Prop
  | own (hlocal : s.localName = name) (himported : s.importedName ≠ "*") :
      Passes s name s.importedName
  | star (hother : ¬ (s.localName = name ∧ s.importedName ≠ "*")) (hlocal : s.localName = "*")
      (hname : name ≠ "default") : Passes s name name

theorem Specifier.passesOn?_eq_some_iff {s : Specifier} {name inner : String} :
    s.passesOn? name = some inner ↔ s.Passes name inner := by
  unfold passesOn?
  by_cases hown : s.localName = name ∧ s.importedName ≠ "*"
  · rw [if_pos (by simpa using hown), Option.some.injEq]
    constructor
    · rintro rfl
      exact .own hown.1 hown.2
    · intro h
      cases h with
      | own => rfl
      | star hother => exact absurd hown hother
  · rw [if_neg (by simpa using hown)]
    by_cases hstar : s.localName = "*" ∧ name ≠ "default"
    · rw [if_pos (by simpa using hstar), Option.some.injEq]
      constructor
      · rintro rfl
        exact .star hown hstar.1 hstar.2
      · intro h
        cases h with
        | own hlocal himported => exact absurd ⟨hlocal, himported⟩ hown
        | star => rfl
    · rw [if_neg (by simpa using hstar)]
      constructor
      · intro h
        cases h
      · intro h
        cases h with
        | own hlocal himported => exact absurd ⟨hlocal, himported⟩ hown
        | star _ hlocal hname => exact absurd ⟨hlocal, hname⟩ hstar

/-- One step, from a name of a file to a name of the file that a re-export leads to. -/
inductive Reexport (analyses : List FileAnalysis) : String × String → String × String → Prop
  | step {a : FileAnalysis} {b : ImportBinding} {s : Specifier} {path name target inner : String}
      (ha : analysisOf? analyses path = some a) (hb : b ∈ a.imports) (hreexport : b.reexport = true)
      (htarget : b.target = some target) (hs : s ∈ b.specifiers) (hpasses : s.Passes name inner) :
      Reexport analyses (path, name) (target, inner)

inductive ReexportChain (analyses : List FileAnalysis) : Nat → String × String → String × String → Prop
  | done (x : String × String) : ReexportChain analyses 0 x x
  | step {n : Nat} {x y z : String × String} (h : Reexport analyses x y)
      (rest : ReexportChain analyses n y z) : ReexportChain analyses (n + 1) x z

/-! ## The steps that a lookup tries -/

def ImportBinding.passedOn (b : ImportBinding) (name : String) : List (String × String) :=
  match b.reexport, b.target with
  | true, some target => b.specifiers.filterMap fun s => (s.passesOn? name).map (target, ·)
  | _, _ => []

def passedOn (analyses : List FileAnalysis) (path name : String) : List (String × String) :=
  (analysisOf? analyses path).toList.flatMap fun a => a.imports.flatMap (·.passedOn name)

theorem ImportBinding.mem_passedOn {b : ImportBinding} {name target inner : String} :
    (target, inner) ∈ b.passedOn name ↔
      b.reexport = true ∧ b.target = some target ∧ ∃ s ∈ b.specifiers, s.Passes name inner := by
  unfold passedOn
  cases b.reexport with
  | false => simp
  | true =>
    cases b.target with
    | none => simp
    | some t =>
      simp only [List.mem_filterMap, Option.map_eq_some_iff, Prod.mk.injEq, true_and, Option.some.injEq,
        Specifier.passesOn?_eq_some_iff]
      constructor
      · rintro ⟨s, hs, _, hpasses, rfl, rfl⟩
        exact ⟨rfl, s, hs, hpasses⟩
      · rintro ⟨rfl, s, hs, hpasses⟩
        exact ⟨s, hs, inner, hpasses, rfl, rfl⟩

theorem mem_passedOn {analyses : List FileAnalysis} {path name : String} {y : String × String} :
    y ∈ passedOn analyses path name ↔ Reexport analyses (path, name) y := by
  obtain ⟨target, inner⟩ := y
  simp only [passedOn, List.mem_flatMap, Option.mem_toList, ImportBinding.mem_passedOn]
  constructor
  · rintro ⟨a, ha, b, hb, hreexport, htarget, s, hs, hpasses⟩
    exact .step ha hb hreexport htarget hs hpasses
  · intro h
    cases h with
    | step ha hb hreexport htarget hs hpasses =>
      exact ⟨_, ha, _, hb, hreexport, htarget, _, hs, hpasses⟩

theorem findSome?_flatMap {α β γ : Type} (f : α → List β) (g : β → Option γ) (xs : List α) :
    (xs.flatMap f).findSome? g = xs.findSome? fun x => (f x).findSome? g := by
  induction xs with
  | nil => rfl
  | cons x xs ih =>
    rw [List.flatMap_cons, List.findSome?_append, ih, List.findSome?_cons]
    cases (f x).findSome? g <;> rfl

theorem findSome?_filterMap {α β γ : Type} (f : α → Option β) (g : β → Option γ) (xs : List α) :
    (xs.filterMap f).findSome? g = xs.findSome? fun x => (f x).bind g := by
  induction xs with
  | nil => rfl
  | cons x xs ih =>
    rw [List.filterMap_cons, List.findSome?_cons]
    cases f x with
    | none => exact ih
    | some y => rw [List.findSome?_cons, ih]; rfl

theorem reexported?_eq (index : ExportIndex) (analyses : List FileAnalysis) (steps : Nat)
    (path name : String) : reexported? index analyses steps path name =
      (passedOn analyses path name).findSome? fun x => lookupExport index analyses steps x.1 x.2 := by
  unfold reexported? passedOn
  cases analysisOf? analyses path with
  | none => rfl
  | some a =>
    rw [Option.bind_some, Option.toList_some, List.flatMap_singleton, findSome?_flatMap]
    congr 1
    funext b
    unfold ImportBinding.passedOn
    cases b.reexport with
    | false => rfl
    | true =>
      cases b.target with
      | none => rfl
      | some target =>
        show b.specifiers.findSome? _ = (b.specifiers.filterMap _).findSome? _
        rw [findSome?_filterMap]
        congr 1
        funext s
        cases s.passesOn? name <;> rfl

/-! ## Lookups -/

def lookupFrom (index : ExportIndex) (analyses : List FileAnalysis) (depth : Int) (path name : String) :
    Option Place :=
  lookupExport index analyses (maxReexportSteps - depth).toNat path name

section
variable {index : ExportIndex} {analyses : List FileAnalysis}

theorem lookupFrom_of_le {depth : Int} (h : 5 ≤ depth) (path name : String) :
    lookupFrom index analyses depth path name = index.find? path name := by
  have hzero : ((maxReexportSteps : Int) - depth).toNat = 0 := by
    unfold maxReexportSteps
    omega
  rw [lookupFrom, hzero, lookupExport]

theorem lookupFrom_of_lt {depth : Int} (h : depth < 5) (path name : String) :
    lookupFrom index analyses depth path name = (index.find? path name).or
      ((passedOn analyses path name).findSome? fun x => lookupFrom index analyses (depth + 1) x.1 x.2) := by
  have hsucc : ((maxReexportSteps : Int) - depth).toNat = (maxReexportSteps - (depth + 1)).toNat + 1 := by
    unfold maxReexportSteps
    omega
  rw [lookupFrom, hsucc, lookupExport_succ, reexported?_eq]
  rfl

theorem lookupFrom_of_find? {path name : String} {place : Place} (h : index.find? path name = some place)
    (depth : Int) : lookupFrom index analyses depth path name = some place := by
  by_cases hdepth : depth < 5
  · rw [lookupFrom_of_lt hdepth, h, Option.some_or]
  · rw [lookupFrom_of_le (by omega), h]

theorem lookupFrom_isSome_of_chain {steps : Nat} {x y : String × String}
    (h : ReexportChain analyses steps x y) (hy : (index.find? y.1 y.2).isSome = true) :
    ∀ depth : Int, steps ≤ max 0 (5 - depth) →
      (lookupFrom index analyses depth x.1 x.2).isSome = true := by
  induction h with
  | done x =>
    intro depth _
    obtain ⟨place, hplace⟩ := Option.isSome_iff_exists.mp hy
    rw [lookupFrom_of_find? hplace, Option.isSome_some]
  | @step n x z _ hstep _ ih =>
    intro depth hsteps
    rw [lookupFrom_of_lt (by omega), Option.isSome_or, List.findSome?_isSome_iff.mpr, Bool.or_true]
    exact ⟨z, mem_passedOn.mpr hstep, ih hy (depth + 1) (by omega)⟩

theorem chain_of_lookupFrom {place : Place} (left : Nat) : ∀ {depth : Int} {path name : String},
    (5 - depth).toNat = left → lookupFrom index analyses depth path name = some place →
      ∃ steps : Nat, (steps : Int) ≤ max 0 (5 - depth) ∧ ∃ y,
        ReexportChain analyses steps (path, name) y ∧ index.find? y.1 y.2 = some place := by
  induction left with
  | zero =>
    intro depth path name hleft h
    rw [lookupFrom_of_le (by omega)] at h
    exact ⟨0, by omega, _, .done _, h⟩
  | succ left ih =>
    intro depth path name hleft h
    rw [lookupFrom_of_lt (by omega), Option.or_eq_some_iff] at h
    rcases h with h | ⟨-, h⟩
    · exact ⟨0, by omega, _, .done _, h⟩
    · obtain ⟨y, hy, hfound⟩ := List.exists_of_findSome?_eq_some h
      obtain ⟨steps, hsteps, z, hchain, hz⟩ := ih (by omega) hfound
      exact ⟨steps + 1, by omega, z, .step (mem_passedOn.mp hy) hchain, hz⟩

end

/-- A lookup that starts behind some re-exports gives a record exactly if a chain of at most as many steps
as are left leads to an indexed name. What it gives is indexed at the end of such a chain. -/
theorem lookupFrom_isSome_iff_chain (index : ExportIndex) (analyses : List FileAnalysis) (depth : Int)
    (path name : String) :
    ((lookupFrom index analyses depth path name).isSome = true ↔
      ∃ steps : Nat, (steps : Int) ≤ max 0 (5 - depth) ∧ ∃ path' name',
        ReexportChain analyses steps (path, name) (path', name') ∧
          (index.find? path' name').isSome = true) ∧
    ∀ place, lookupFrom index analyses depth path name = some place →
      ∃ steps : Nat, (steps : Int) ≤ max 0 (5 - depth) ∧ ∃ path' name',
        ReexportChain analyses steps (path, name) (path', name') ∧
          index.find? path' name' = some place := by
  have hsound : ∀ place, lookupFrom index analyses depth path name = some place →
      ∃ steps : Nat, (steps : Int) ≤ max 0 (5 - depth) ∧ ∃ path' name',
        ReexportChain analyses steps (path, name) (path', name') ∧
          index.find? path' name' = some place := by
    intro place h
    obtain ⟨steps, hsteps, ⟨path', name'⟩, hchain, hplace⟩ := chain_of_lookupFrom _ rfl h
    exact ⟨steps, hsteps, path', name', hchain, hplace⟩
  refine ⟨⟨fun h => ?_, ?_⟩, hsound⟩
  · obtain ⟨place, hplace⟩ := Option.isSome_iff_exists.mp h
    obtain ⟨steps, hsteps, path', name', hchain, hfound⟩ := hsound place hplace
    exact ⟨steps, hsteps, path', name', hchain, by rw [hfound, Option.isSome_some]⟩
  · rintro ⟨steps, hsteps, path', name', hchain, hfound⟩
    exact lookupFrom_isSome_of_chain hchain hfound depth hsteps

end CodeAtlas
