import CodeAtlas.Resolver.Session

/-!
# Searching for the file of a specifier

A specifier stands for a list of files in a fixed order (`searched`), and the answer to a question is
the first of them that is known. What a session remembers does not change its answers
(`resolveAll_eq_first_known`).
-/

namespace CodeAtlas.Resolver

/-! ## The order of the search -/

/-- Files of this extension are no scripts, so importers with it look for their own kind first. -/
def Foreign (family : String) : Prop :=
  family ≠ "" ∧ family ∉ sourceExtensions

instance (family : String) : Decidable (Foreign family) :=
  inferInstanceAs (Decidable (_ ∧ _))

def filesOf (family base : String) : List String :=
  let ownExtension := if Foreign family then [family] else []
  let ownIndex := if Foreign family then packageFiles family else []
  let index := ownIndex ++ sourceExtensions.map ("index" ++ ·)
  if base = "" ∨ base = "." then index
  else [base] ++ (ownExtension ++ sourceExtensions).map (base ++ ·) ++ index.map (base ++ "/" ++ ·)

def searched (aliases : List Alias) (importer specifier : String) : List String :=
  let filesAt path := filesOf (family importer) (Path.canonical path)
  if specifier.startsWith "." then filesAt (Path.join (Path.dirname importer) specifier)
  else
    (aliases.flatMap fun a => (a.remainder? specifier).toList.flatMap fun rest =>
      a.targets.flatMap fun target => filesAt (Path.join target rest))
    ++ filesAt (Path.dropLeadingSlashes specifier)
    ++ filesAt (Path.join sourceRoot (Path.dropLeadingSlashes specifier))

theorem not_foreign_iff (family : String) :
    ¬ Foreign family ↔ (family.isEmpty || sourceExtensions.contains family) = true := by
  simp only [Foreign, Bool.or_eq_true, String.isEmpty_iff, List.contains_iff_mem, ne_eq,
    Decidable.not_and_iff_not_or_not, Decidable.not_not]

theorem extensionsFor_eq (family : String) :
    extensionsFor family = (if Foreign family then [family] else []) ++ sourceExtensions := by
  unfold extensionsFor
  by_cases h : Foreign family
  · rw [if_neg fun hc => (not_foreign_iff family).mpr hc h, if_pos h, List.singleton_append]
  · rw [if_pos ((not_foreign_iff family).mp h), if_neg h, List.nil_append]

theorem indexFilesFor_eq (family : String) : indexFilesFor family =
    (if Foreign family then packageFiles family else []) ++ sourceExtensions.map ("index" ++ ·) := by
  unfold indexFilesFor indexFiles
  by_cases h : Foreign family
  · rw [if_neg fun hc => (not_foreign_iff family).mpr hc h, if_pos h]
  · rw [if_pos ((not_foreign_iff family).mp h), if_neg h, List.nil_append]

theorem filesOf_eq (family base : String) : filesOf family base = candidates base family := by
  simp only [filesOf, candidates, ← extensionsFor_eq, ← indexFilesFor_eq, Bool.or_eq_true, beq_iff_eq]
  split
  · rfl
  · rw [List.append_assoc, List.singleton_append]

theorem searched_eq (aliases : List Alias) (importer specifier : String) :
    searched aliases importer specifier =
      (bases aliases importer specifier).flatMap (candidates · (family importer)) := by
  unfold searched bases
  simp only [filesOf_eq]
  split
  · simp
  · simp only [List.flatMap_append, List.flatMap_assoc, List.flatMap_cons, List.flatMap_nil,
      List.append_nil, List.append_assoc]
    congr 2
    funext a
    cases a.remainder? specifier with
    | none => rfl
    | some rest => simp [List.flatMap_map]

theorem resolve_eq (r : Resolver) {importer specifier : String} (h : specifier ≠ "") :
    r.resolve importer specifier = (searched r.aliases importer specifier).find? (· ∈ r.known) := by
  have hknown : r.known.contains = fun file => decide (file ∈ r.known) := by
    funext file
    simp
  rw [resolve, if_neg (by simpa using h), searched_eq, List.find?_flatMap]
  unfold probe
  rw [hknown]

/-! ## Sessions -/

namespace Session

def Truthful (s : Session) : Prop :=
  ∀ family base found, s.memo.lookup (family, base) = some found →
    found = s.resolver.probe family base

/-- A step of the session with an answer that the session's past has no part in. -/
structure Answers (s : Session) (step : Option String × Session) (answer : Option String) : Prop where
  answer : step.1 = answer
  resolver : step.2.resolver = s.resolver
  truthful : step.2.Truthful

variable {s : Session} (h : s.Truthful)
include h

theorem Truthful.probe (family base : String) :
    s.Answers (s.probe family base) (s.resolver.probe family base) := by
  unfold Session.probe
  cases hmemo : s.memo.lookup (family, base) with
  | some found => exact ⟨h family base found hmemo, rfl, h⟩
  | none =>
    refine ⟨rfl, rfl, ?_⟩
    intro family' base' found hfound
    simp only [List.lookup_cons] at hfound
    split at hfound
    · rename_i hkey
      obtain ⟨rfl, rfl⟩ := Prod.mk.inj (beq_iff_eq.mp hkey)
      exact (Option.some.inj hfound).symm
    · exact h family' base' found hfound

theorem Truthful.probeAny (family : String) (bases : List String) :
    s.Answers (s.probeAny family bases) (bases.findSome? (s.resolver.probe family)) := by
  induction bases generalizing s with
  | nil => exact ⟨rfl, rfl, h⟩
  | cons base rest ih =>
    have hprobe := h.probe family base
    unfold Session.probeAny
    rw [List.findSome?_cons, ← hprobe.answer]
    generalize s.probe family base = step at hprobe
    obtain ⟨found, next⟩ := step
    cases found with
    | some found => exact ⟨rfl, hprobe.resolver, hprobe.truthful⟩
    | none =>
      have hrest := ih hprobe.truthful
      rw [hprobe.resolver] at hrest
      exact ⟨hrest.answer, hrest.resolver.trans hprobe.resolver, hrest.truthful⟩

theorem Truthful.resolve (importer specifier : String) :
    s.Answers (s.resolve importer specifier) (s.resolver.resolve importer specifier) := by
  unfold Session.resolve Resolver.resolve
  split
  · exact ⟨rfl, rfl, h⟩
  · exact h.probeAny _ _

theorem Truthful.resolveAll (queries : List (String × String)) :
    s.resolveAll queries = queries.map fun q => s.resolver.resolve q.1 q.2 := by
  induction queries generalizing s with
  | nil => rfl
  | cons q rest ih =>
    have hstep := h.resolve q.1 q.2
    have hrest := ih hstep.truthful
    rw [hstep.resolver] at hrest
    simp only [Session.resolveAll, List.map_cons, hstep.answer, hrest]

end Session

/-- The answers of a fresh session are the first known files of what is searched for each question,
whatever was asked before it; there is no answer exactly when nothing that is searched is known. -/
theorem resolveAll_eq_first_known (r : Resolver) (queries : List (String × String))
    (h : ∀ q ∈ queries, q.2 ≠ "") :
    Session.resolveAll { resolver := r } queries =
      queries.map (fun q => (searched r.aliases q.1 q.2).find? (· ∈ r.known)) ∧
    ∀ q answer, (q, answer) ∈ queries.zip (Session.resolveAll { resolver := r } queries) →
      (answer = none ↔ ∀ file ∈ searched r.aliases q.1 q.2, file ∉ r.known) := by
  have hfresh : Session.Truthful { resolver := r } := by
    intro family base found hfound
    cases hfound
  have hall : Session.resolveAll { resolver := r } queries =
      queries.map (fun q => (searched r.aliases q.1 q.2).find? (· ∈ r.known)) := by
    rw [hfresh.resolveAll]
    apply List.map_congr_left
    intro q hq
    exact resolve_eq r (h q hq)
  refine ⟨hall, ?_⟩
  intro q answer hmem
  rw [hall, List.zip_map_right, List.mem_map] at hmem
  obtain ⟨⟨q₁, q₂⟩, hzip, heq⟩ := hmem
  obtain ⟨rfl, rfl⟩ := Prod.mk.inj heq
  have hsame : q₁ = q₂ := by
    obtain ⟨i, hi⟩ := List.getElem?_of_mem hzip
    rw [List.getElem?_zip_eq_some] at hi
    exact Option.some.inj (hi.1.symm.trans hi.2)
  subst hsame
  simp [List.find?_eq_none]

def mixedFiles : Resolver where
  known := ["lib/util.ts", "lib/util.py", "core/x/__init__.py", "src/pkg/index.js"]
  aliases := [{ lead := "@/", trail := "", targets := ["lib", "core"] }]

/-- One base path, asked for from two kinds of files, then an alias with two targets, a directory below
the source root, and a package that is not there. -/
def mixedQueries : List (String × String) :=
  [("lib/a.py", "./util"), ("lib/b.ts", "./util"), ("lib/a.py", "./util"), ("main.py", "@/x"),
    ("main.rs", "/pkg"), ("main.ts", "react")]

theorem resolveAll_of_mixed_files : (∀ q ∈ mixedQueries, q.2 ≠ "") ∧
    Session.resolveAll { resolver := mixedFiles } mixedQueries =
      [some "lib/util.py", some "lib/util.ts", some "lib/util.py", some "core/x/__init__.py",
        some "src/pkg/index.js", none] := by
  have hasked : ∀ q ∈ mixedQueries, q.2 ≠ "" := by decide
  refine ⟨hasked, ?_⟩
  rw [(resolveAll_eq_first_known mixedFiles mixedQueries hasked).1]
  decide +kernel

end CodeAtlas.Resolver
