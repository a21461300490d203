import CodeAtlas.Proofs.Paths
import CodeAtlas.Proofs.Resolution
import Mathlib.Data.List.Infix
import Mathlib.Tactic.Conv

/-!
# Specifiers that climb

A specifier of dots climbs from the directory of the importer and then goes down along named segments.
It has one base path, the directory that is left with the segments behind it (`Climbs.bases_eq`), so
every known file is reached by climbing to any directory above both (`resolve_climbing`).
-/

namespace CodeAtlas.Path

/-! ## Names -/

structure IsName (part : String) : Prop where
  ne_empty : part ≠ ""
  ne_dot : part ≠ "."
  ne_up : part ≠ ".."
  noSlash : '/' ∉ part.toList
  noBackslash : '\\' ∉ part.toList

instance (part : String) : Decidable (IsName part) :=
  decidable_of_iff (part ≠ "" ∧ part ≠ "." ∧ part ≠ ".." ∧ '/' ∉ part.toList ∧ '\\' ∉ part.toList)
    ⟨fun ⟨h₁, h₂, h₃, h₄, h₅⟩ => ⟨h₁, h₂, h₃, h₄, h₅⟩,
      fun h => ⟨h.ne_empty, h.ne_dot, h.ne_up, h.noSlash, h.noBackslash⟩⟩

section
variable {parts : List String} (h : ∀ part ∈ parts, IsName part)
include h

theorem foldl_names (before : List String) :
    parts.foldl (normalStep false) before = parts.reverse ++ before := by
  induction parts generalizing before with
  | nil => rfl
  | cons part parts ih =>
    have hpart := h part List.mem_cons_self
    rw [List.foldl_cons, normalStep_of_name ⟨hpart.ne_empty, hpart.ne_dot⟩ hpart.ne_up,
      ih fun part hmem => h part (List.mem_cons_of_mem _ hmem)]
    simp

theorem steps_names (before : List String) :
    steps (ofSegments parts) before = parts.reverse ++ before := by
  rw [steps_ofSegments fun part hpart => (h part hpart).noSlash, foldl_names h]

theorem noBackslash_names : '\\' ∉ (ofSegments parts).toList := by
  intro hc
  rcases mem_ofSegments hc with hslash | ⟨part, hpart, hc⟩
  · cases hslash
  · exact (h part hpart).noBackslash hc

theorem segments_names (hne : parts ≠ []) : segments (ofSegments parts) = parts :=
  segments_ofSegments hne fun part hpart => (h part hpart).noSlash

theorem empty_notMem_segments_names (hne : parts ≠ []) : "" ∉ segments (ofSegments parts) := by
  rw [segments_names h hne]
  intro hempty
  exact (h "" hempty).ne_empty rfl

theorem isRelative_names : IsRelative (ofSegments parts) := by
  by_cases hnil : parts = []
  · subst hnil
    unfold IsRelative
    decide
  · exact isRelative_of_segments (empty_notMem_segments_names h hnil)

theorem dirname_names (hne : parts ≠ []) : dirname (ofSegments parts) = ofSegments parts.dropLast := by
  have hlast := h _ (List.getLast_mem hne)
  have hdirs : ∀ part ∈ parts.dropLast, IsName part := by
    intro part hpart
    exact h part (List.mem_of_mem_dropLast hpart)
  conv_lhs => rw [← List.dropLast_append_getLast hne]
  by_cases hnil : parts.dropLast = []
  · rw [hnil]
    exact dirname_of_notMem (by simpa [ofSegments] using hlast.noSlash)
  · rw [ofSegments, String.intercalate_append_of_ne_nil hnil (by simp), String.intercalate_singleton]
    exact dirname_append (empty_notMem_segments_names hdirs hnil) hlast.noSlash

end

/-! ## Climbing -/

def climb (levels : Nat) : List String :=
  if levels = 0 then ["."] else List.replicate levels ".."

theorem climb_cases {levels : Nat} {part : String} (h : part ∈ climb levels) :
    part = "." ∨ part = ".." := by
  unfold climb at h
  split at h
  · exact .inl (List.mem_singleton.1 h)
  · exact .inr (List.eq_of_mem_replicate h)

theorem climb_ne_nil (levels : Nat) : climb levels ≠ [] := by
  unfold climb
  split
  · simp
  · simpa using ‹levels ≠ 0›

theorem normalStep_up {last : String} (h : last ≠ "..") (rest : List String) :
    normalStep false (last :: rest) ".." = rest := by
  simp [normalStep, h]

theorem foldl_climb {before : List String} (h : ".." ∉ before) {levels : Nat}
    (hlevels : levels ≤ before.length) : (climb levels).foldl (normalStep false) before =
      before.drop levels := by
  have hups : (List.replicate levels "..").foldl (normalStep false) before = before.drop levels := by
    induction levels generalizing before with
    | zero => rfl
    | succ levels ih =>
      cases before with
      | nil => simp at hlevels
      | cons last rest =>
        rw [List.mem_cons, not_or] at h
        rw [List.replicate_succ, List.foldl_cons, normalStep_up (Ne.symm h.1),
          ih h.2 (by simpa using hlevels)]
        rfl
  unfold climb
  split
  · next hzero =>
    rw [hzero]
    rfl
  · exact hups

def climbText (levels : Nat) : String :=
  if levels = 0 then "./" else String.join (List.replicate levels "../")

theorem climbText_eq (levels : Nat) : climbText levels = ofSegments (climb levels) ++ "/" := by
  have hups : ∀ n, String.join (List.replicate (n + 1) "../") =
      ofSegments (List.replicate (n + 1) "..") ++ "/" := by
    intro n
    induction n with
    | zero => rfl
    | succ n ih =>
      have hsegments : ofSegments (List.replicate (n + 2) "..") =
          ".." ++ "/" ++ ofSegments (List.replicate (n + 1) "..") := by
        rw [List.replicate_succ]
        exact String.intercalate_cons_of_ne_nil (by simp)
      rw [List.replicate_succ, String.join_cons, ih, hsegments, ← String.append_assoc]
      rfl
  cases levels with
  | zero => rfl
  | succ n => exact hups n

/-- The specifier climbs so many levels and goes down along the segments. -/
structure Climbs (specifier : String) (levels : Nat) (rest : List String) : Prop where
  dotted : ∃ cs, specifier.toList = '.' :: cs
  noBackslash : '\\' ∉ specifier.toList
  steps_eq : ∀ before, steps specifier before = (climb levels ++ rest).foldl (normalStep false) before

theorem Climbs.ne_empty {specifier : String} {levels : Nat} {rest : List String}
    (h : Climbs specifier levels rest) : specifier ≠ "" := by
  obtain ⟨cs, hcs⟩ := h.dotted
  rintro rfl
  simp at hcs

theorem dotted_climb (levels : Nat) : ∃ cs, (ofSegments (climb levels)).toList = '.' :: cs := by
  have hfirst : ∀ parts, ∃ cs, (ofSegments (".." :: parts)).toList = '.' :: cs := by
    intro parts
    cases parts with
    | nil => exact ⟨['.'], rfl⟩
    | cons part parts => exact ⟨_, by rw [ofSegments, String.intercalate_cons_cons]; simp; rfl⟩
  cases levels with
  | zero => exact ⟨[], rfl⟩
  | succ n => exact hfirst (List.replicate n "..")

theorem noBackslash_climb (levels : Nat) : '\\' ∉ (ofSegments (climb levels)).toList := by
  intro hc
  rcases mem_ofSegments hc with hslash | ⟨part, hpart, hc⟩
  · cases hslash
  · rcases climb_cases hpart with rfl | rfl
    · simp at hc
    · simp at hc

theorem steps_climb (levels : Nat) (before : List String) :
    steps (ofSegments (climb levels)) before = (climb levels).foldl (normalStep false) before := by
  apply steps_ofSegments
  intro part hpart
  rcases climb_cases hpart with rfl | rfl
  · decide
  · decide

section
variable (levels : Nat) {rest : List String} (h : ∀ part ∈ rest, IsName part)
include h

theorem climbs_climbText : Climbs (climbText levels ++ ofSegments rest) levels rest where
  dotted := by
    obtain ⟨cs, hcs⟩ := dotted_climb levels
    refine ⟨cs ++ '/' :: (ofSegments rest).toList, ?_⟩
    simp [climbText_eq, hcs]
  noBackslash := by
    simp [climbText_eq, noBackslash_climb, noBackslash_names h]
  steps_eq := by
    intro before
    rw [climbText_eq, steps_append, steps_climb, List.foldl_append]
    exact steps_ofSegments (fun part hpart => (h part hpart).noSlash) _

theorem climbs_ofSegments : Climbs (ofSegments (climb levels ++ rest)) levels rest := by
  by_cases hnil : rest = []
  · subst hnil
    rw [List.append_nil]
    refine ⟨dotted_climb levels, noBackslash_climb levels, fun before => ?_⟩
    rw [steps_climb, List.append_nil]
  · have htext : ofSegments (climb levels ++ rest) = climbText levels ++ ofSegments rest := by
      rw [climbText_eq]
      exact String.intercalate_append_of_ne_nil (climb_ne_nil levels) hnil
    rw [htext]
    exact climbs_climbText levels h

end

end CodeAtlas.Path

namespace CodeAtlas.Resolver

open CodeAtlas.Path

/-! ## Base paths -/

def rooted (parts : List String) : String :=
  if parts = [] then "." else ofSegments parts

theorem relativeText_reverse (parts : List String) : relativeText parts.reverse = rooted parts := by
  simp [relativeText, rooted]

section
variable {importer specifier : String} {dirs rest : List String} {levels : Nat}
variable (hdir : dirname importer = ofSegments dirs) (hdirs : ∀ part ∈ dirs, IsName part)
variable (hrest : ∀ part ∈ rest, IsName part) (h : Climbs specifier levels rest)
variable (hlevels : levels ≤ dirs.length)
include hdir hdirs hrest h hlevels

theorem bases_of_climbs (aliases : List Alias) : bases aliases importer specifier =
    [rooted (dirs.take (dirs.length - levels) ++ rest)] := by
  obtain ⟨cs, hcs⟩ := h.dotted
  have hstart : specifier.startsWith "." = true := by
    rw [String.startsWith_string_iff, hcs]
    exact ⟨cs, rfl⟩
  have hrelative : IsRelative specifier := by
    simp [IsRelative, hcs]
  have hups : ".." ∉ dirs.reverse := by
    intro hmem
    exact (hdirs ".." (List.mem_reverse.1 hmem)).ne_up rfl
  have hsteps : steps specifier (steps (ofSegments dirs) []) =
      (dirs.take (dirs.length - levels) ++ rest).reverse := by
    rw [steps_names hdirs, h.steps_eq, List.append_nil, List.foldl_append,
      foldl_climb hups (by simpa using hlevels), foldl_names hrest, List.drop_reverse, List.reverse_append]
  rw [bases, if_pos hstart, hdir, canonical_join_of_isRelative (isRelative_names hdirs) hrelative
    (noBackslash_names hdirs) h.noBackslash, hsteps, relativeText_reverse]

theorem resolve_of_climbs (r : Resolver) : r.resolve importer specifier =
    r.probe (family importer) (rooted (dirs.take (dirs.length - levels) ++ rest)) := by
  rw [resolve, if_neg (by simpa using h.ne_empty), bases_of_climbs hdir hdirs hrest h hlevels]
  cases hprobe : r.probe (family importer) (rooted (dirs.take (dirs.length - levels) ++ rest)) <;>
    simp [hprobe]

end

/-- A known file is found at its own path, whatever else is known. -/
theorem probe_of_mem {r : Resolver} {file : String} (hknown : file ∈ r.known) (hempty : file ≠ "")
    (hdot : file ≠ ".") (family : String) : r.probe family file = some file := by
  simp [probe, candidates, hempty, hdot, hknown]

/-- A known file is reached from any importer: by climbing from its directory to any directory above
both of them, and going down from there. -/
theorem resolve_climbing (r : Resolver) {importer file : String} {common up rest : List String}
    (himporter : ∀ part ∈ segments importer, IsName part) (hfile : ∀ part ∈ segments file, IsName part)
    (hup : (segments importer).dropLast = common ++ up) (hrest : segments file = common ++ rest)
    (hknown : file ∈ r.known) :
    r.resolve importer (climbText up.length ++ ofSegments rest) = some file := by
  have hdir : dirname importer = ofSegments (common ++ up) := by
    rw [← hup, ← dirname_names himporter (segments_ne_nil importer), ofSegments_segments]
  have hdirs : ∀ part ∈ common ++ up, IsName part := by
    intro part hpart
    rw [← hup] at hpart
    exact himporter part (List.mem_of_mem_dropLast hpart)
  have hnames : ∀ part ∈ rest, IsName part := by
    intro part hpart
    apply hfile part
    rw [hrest]
    exact List.mem_append_right _ hpart
  have hbase : rooted ((common ++ up).take ((common ++ up).length - up.length) ++ rest) = file := by
    have hnil : common ++ rest ≠ [] := hrest ▸ segments_ne_nil file
    rw [List.length_append, Nat.add_sub_cancel, List.take_left, rooted, if_neg hnil, ← hrest,
      ofSegments_segments]
  have hempty : file ≠ "" := by
    rintro rfl
    exact (hfile "" (by decide)).ne_empty rfl
  have hdot : file ≠ "." := by
    rintro rfl
    exact (hfile "." (by decide)).ne_dot rfl
  rw [resolve_of_climbs hdir hdirs hnames (climbs_climbText up.length hnames) (by simp), hbase]
  exact probe_of_mem hknown hempty hdot _

theorem resolve_climbing_two_levels :
    let r : Resolver :=
      { known := ["app/core/read.ts.ts", "app/core/read.ts/index.ts", "app/core/read.ts"] }
    (∀ part ∈ segments "app/ui/views/main.ts", IsName part) ∧
    (∀ part ∈ segments "app/core/read.ts", IsName part) ∧
    (segments "app/ui/views/main.ts").dropLast = ["app"] ++ ["ui", "views"] ∧
    segments "app/core/read.ts" = ["app"] ++ ["core", "read.ts"] ∧
    r.resolve "app/ui/views/main.ts" "../../core/read.ts" = some "app/core/read.ts" := by
  intro r
  have himporter : ∀ part ∈ segments "app/ui/views/main.ts", IsName part := by decide +kernel
  have hfile : ∀ part ∈ segments "app/core/read.ts", IsName part := by decide +kernel
  have hup : (segments "app/ui/views/main.ts").dropLast = ["app"] ++ ["ui", "views"] := by decide +kernel
  have hrest : segments "app/core/read.ts" = ["app"] ++ ["core", "read.ts"] := by decide +kernel
  have htext : climbText ["ui", "views"].length ++ ofSegments ["core", "read.ts"] =
      "../../core/read.ts" := by decide +kernel
  refine ⟨himporter, hfile, hup, hrest, ?_⟩
  rw [← htext]
  exact resolve_climbing r himporter hfile hup hrest (by decide)

end CodeAtlas.Resolver
