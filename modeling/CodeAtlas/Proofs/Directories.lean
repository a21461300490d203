import CodeAtlas.Proofs.Assembly
import Mathlib.Logic.Function.Iterate

/-!
# Directories above the scanned paths

A climb goes from a directory to its parent until it meets a directory that was found before. It may
stop there because the parents of all that was found were found as well (`ClosedUpTo`): after each
path the list holds the directories above the paths so far, and no others (`Above`).
-/

namespace CodeAtlas.Assembly

open CodeAtlas.Path

/-! ## One climb -/

/-- The parents of what was found were found too, but for one of them. -/
def ClosedUpTo (next : String) (found : List String) : Prop :=
  ∀ d ∈ found, dirname d ∈ found ∨ dirname d = next ∨ dirname d = ""

theorem climb_closed {found : List String} {directory : String} (h : ClosedUpTo directory found) :
    ClosedUpTo "" (climb found directory) := by
  fun_induction climb found directory with
  | case1 found directory hstop =>
    simp only [Bool.or_eq_true, String.isEmpty_iff, List.contains_iff_mem] at hstop
    intro d hd
    rcases h d hd with hparent | hnext | hempty
    · exact .inl hparent
    · rcases hstop with hstop | hstop
      · exact .inr (.inl (hnext.trans hstop))
      · exact .inl (hnext ▸ hstop)
    · exact .inr (.inl hempty)
  | case2 found directory _ ih =>
    apply ih
    intro d hd
    rcases List.mem_append.1 hd with hd | hd
    · rcases h d hd with hparent | hnext | hempty
      · exact .inl (List.mem_append_left _ hparent)
      · exact .inl (List.mem_append_right _ (List.mem_singleton.2 hnext))
      · exact .inr (.inr hempty)
    · rw [List.mem_singleton.1 hd]
      exact .inr (.inl rfl)

theorem mem_climb_self {directory : String} (h : directory ≠ "") (found : List String) :
    directory ∈ climb found directory := by
  unfold climb
  by_cases hstop : (directory.isEmpty || found.contains directory) = true
  · rw [if_pos hstop]
    simpa [h] using hstop
  · rw [if_neg hstop]
    exact subset_climb _ _ (List.mem_append_right _ List.mem_cons_self)

theorem above_of_mem_climb {found : List String} {directory d : String} (h : d ∈ climb found directory) :
    d ∈ found ∨ d ≠ "" ∧ ∃ n, dirname^[n] directory = d := by
  fun_induction climb found directory with
  | case1 found directory _ => exact .inl h
  | case2 found directory hnew ih =>
    rcases ih h with h | ⟨hne, n, hn⟩
    · rcases List.mem_append.1 h with h | h
      · exact .inl h
      · rw [List.mem_singleton.1 h]
        simp only [Bool.or_eq_true, not_or, String.isEmpty_iff] at hnew
        exact .inr ⟨hnew.1, 0, rfl⟩
    · exact .inr ⟨hne, n + 1, hn⟩

theorem ClosedUpTo.iterate {found : List String} (h : ClosedUpTo "" found) {d : String} (hd : d ∈ found)
    (n : Nat) (hne : dirname^[n] d ≠ "") : dirname^[n] d ∈ found := by
  induction n with
  | zero => exact hd
  | succ n ih =>
    rw [Function.iterate_succ_apply'] at hne ⊢
    have hbelow : dirname^[n] d ≠ "" := by
      intro hempty
      rw [hempty] at hne
      exact hne (by decide)
    rcases h _ (ih hbelow) with hparent | hempty | hempty
    · exact hparent
    · exact absurd hempty hne
    · exact absurd hempty hne

/-! ## All climbs -/

structure Above (paths found : List String) : Prop where
  closed : ClosedUpTo "" found
  mem_iff : ∀ d, d ∈ found ↔ d = rootDirectory ∨ d ≠ "" ∧ ∃ path ∈ paths, ∃ n, dirname^[n + 1] path = d

theorem above_nil : Above [] [rootDirectory] := by
  constructor
  · intro d hd
    rw [List.mem_singleton.1 hd]
    exact .inr (.inl (by decide))
  · simp

theorem Above.step {paths found : List String} (h : Above paths found) (path : String) :
    Above (paths ++ [path]) (climb found (dirname path)) := by
  have hclosed : ClosedUpTo "" (climb found (dirname path)) := by
    apply climb_closed
    intro d hd
    rcases h.closed d hd with hparent | hempty | hempty
    · exact .inl hparent
    · exact .inr (.inr hempty)
    · exact .inr (.inr hempty)
  refine ⟨hclosed, fun d => ⟨fun hd => ?_, fun hd => ?_⟩⟩
  · rcases above_of_mem_climb hd with hold | ⟨hne, n, hn⟩
    · rcases (h.mem_iff d).1 hold with hroot | ⟨hne, other, hother, n, hn⟩
      · exact .inl hroot
      · exact .inr ⟨hne, other, List.mem_append_left _ hother, n, hn⟩
    · exact .inr ⟨hne, path, List.mem_append_right _ List.mem_cons_self, n, hn⟩
  · rcases hd with hroot | ⟨hne, other, hother, n, hn⟩
    · exact subset_climb _ _ ((h.mem_iff d).2 (.inl hroot))
    · rcases List.mem_append.1 hother with hother | hother
      · exact subset_climb _ _ ((h.mem_iff d).2 (.inr ⟨hne, other, hother, n, hn⟩))
      · obtain rfl := List.mem_singleton.1 hother
        -- above the empty directory there is nothing but itself
        have hparent : dirname other ≠ "" := by
          intro hempty
          have hstays : ∀ k, dirname^[k] "" = "" := fun k => Function.iterate_fixed (by decide) k
          rw [Function.iterate_succ_apply, hempty, hstays] at hn
          exact hne hn.symm
        rw [Function.iterate_succ_apply] at hn
        rw [← hn] at hne ⊢
        exact hclosed.iterate (mem_climb_self hparent found) n hne

theorem above_foldl (paths : List String) :
    Above paths (paths.foldl (fun found path => climb found (dirname path)) [rootDirectory]) := by
  have run : ∀ before found, Above before found →
      Above (before ++ paths) (paths.foldl (fun found path => climb found (dirname path)) found) := by
    induction paths with
    | nil =>
      intro before found h
      rwa [List.append_nil]
    | cons path paths ih =>
      intro before found h
      have hnext := ih (before ++ [path]) _ (h.step path)
      rwa [List.append_assoc] at hnext
  exact run [] _ above_nil

example : ["//srv/a.ts", "/", "src//lib/b.ts", "src/lib/c.ts", "d.ts"].foldl
    (fun found path => climb found (dirname path)) [rootDirectory] =
    [".", "//srv", "//", "/", "src//lib", "src", "src/lib"] := by
  decide +kernel

/-! ## Nodes -/

theorem mem_directories_iff (paths : List String) (d : String) : d ∈ directories paths ↔
    d = rootDirectory ∨ d ≠ "" ∧ ∃ path ∈ paths, ∃ n, dirname^[n + 1] path = d := by
  rw [directories, (sortedTexts_perm _).mem_iff]
  exact (above_foldl paths).mem_iff d

theorem directories_pairwise_lt (paths : List String) : (directories paths).Pairwise (· < ·) := by
  have hle : (directories paths).Pairwise (· ≤ ·) := List.pairwise_mergeSort' _ _
  apply (hle.and (directories_nodup paths)).imp
  intro a b h
  rw [← String.not_le]
  intro hba
  exact h.2 (String.le_antisymm h.1 hba)

/-- The nodes of directories stand in the order of their paths. There is one for the root, one for every
directory that is reached from a scanned path by going to the parent once or more, and no other. -/
theorem directoryNodes_of_scanned (analyses : List FileAnalysis) (r : Resolver) (scanned : List String)
    (label : String) : ∃ found : List String,
    (ofAnalyses analyses r scanned label).fileGraph.nodes.filter (·.kind == "directory") =
      found.map (directoryNode label) ∧
    found.Pairwise (· < ·) ∧
    ∀ d, d ∈ found ↔ d = rootDirectory ∨ d ≠ "" ∧
      ∃ path ∈ if scanned.isEmpty then analyses.map (·.path) else scanned, ∃ n, dirname^[n + 1] path = d := by
  refine ⟨directories (if scanned.isEmpty then analyses.map (·.path) else scanned), ?_,
    directories_pairwise_lt _, mem_directories_iff _⟩
  simp [fileGraph, ofAnalyses, directoryNode, fileNode, List.filter_map, Function.comp_def]

end CodeAtlas.Assembly
