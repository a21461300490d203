import CodeAtlas.Proofs.CallTrace

/-!
# Which declarations are shown

The record of a declaration is shown exactly if it has an exported name or a recorded call stands in
the declaration, with no other function around the call (`walkModule_included`).
-/

namespace CodeAtlas.Script

def Tree.ChargedIn (root : Tree) (path : String) (sites : List Site) (i : Nat) : Prop :=
  ∃ s ∈ sites, s.enclosingFunction? = some i ∧ root.callsAt path s ≠ []

section
variable {root : Tree} {path : String} {sites : List Site} {s : Site} {i : Nat}

theorem chargedIn_concat : root.ChargedIn path (sites ++ [s]) i ↔
    root.ChargedIn path sites i ∨ s.enclosingFunction? = some i ∧ root.callsAt path s ≠ [] := by
  simp [Tree.ChargedIn, or_and_right, exists_or]

theorem chargedIn_concat_of_nil (h : root.callsAt path s = []) :
    root.ChargedIn path (sites ++ [s]) i ↔ root.ChargedIn path sites i := by
  simp [chargedIn_concat, h]

/-- A site is visited before what stands in it. -/
theorem not_chargedIn_of_split {pre post : List Site} (hsplit : root.sites = pre ++ s :: post) :
    ¬ root.ChargedIn path pre s.index := by
  rintro ⟨inner, hinner, hfunction, -⟩
  obtain ⟨first, second, rfl⟩ := List.append_of_mem hinner
  have hinside : root.sites = first ++ inner :: (second ++ s :: post) := by
    rw [hsplit, List.append_assoc, List.cons_append]
  obtain ⟨around, haround, hindex, -⟩ := enclosingFunction?_visited hinside hfunction
  have hnodup := sites_index_nodup root
  rw [hsplit, List.map_append, List.map_cons, List.nodup_append] at hnodup
  exact hnodup.2.2 _ (List.mem_map_of_mem (List.mem_append_left _ haround)) _ List.mem_cons_self hindex

end

def Shown (root : Tree) (path : String) (sites : List Site) (w : Walk) : Prop :=
  ∀ e ∈ w.entries, ∀ i, e.site = some i →
    (e.record.included = true ↔ e.record.exportedAs.isSome = true ∨ root.ChargedIn path sites i)

theorem Walk.entryFor_site (w : Walk) (s : Site) : (w.entryFor s).site = some s.index := by
  unfold Walk.entryFor
  rcases s.owningClass? with _ | ⟨className, index⟩
  · rfl
  · simp only
    cases w.entryAt? index <;> rfl

theorem Walk.exportWithClass_included {r owner : FunctionRecord} (className : Option String)
    (h : r.included = r.exportedAs.isSome) : (Walk.exportWithClass r className owner).included =
      (Walk.exportWithClass r className owner).exportedAs.isSome := by
  unfold Walk.exportWithClass
  cases className with
  | none => exact h
  | some name =>
    simp only
    split
    · rfl
    · exact h

/-- A new record is shown if it is exported. -/
theorem Walk.entryFor_included (w : Walk) (s : Site) :
    (w.entryFor s).record.included = (w.entryFor s).record.exportedAs.isSome := by
  have hplain : (w.recordFor s).included = (w.recordFor s).exportedAs.isSome := by
    unfold Walk.recordFor
    cases s.ownExport? <;> rfl
  unfold Walk.entryFor
  rcases s.owningClass? with _ | ⟨className, index⟩
  · exact hplain
  · simp only
    cases w.entryAt? index with
    | none => exact hplain
    | some owner => exact Walk.exportWithClass_included className hplain

section
variable {root : Tree} {path : String} {pre post : List Site} {s : Site} {w w' : Walk}

theorem Shown.unchanged (h : Shown root path pre w) (hentries : w'.entries = w.entries)
    (hcalls : root.callsAt path s = []) : Shown root path (pre ++ [s]) w' := by
  intro e he i hsite
  rw [hentries] at he
  rw [chargedIn_concat_of_nil hcalls]
  exact h e he i hsite

theorem Shown.declare (h : Shown root path pre w) (hsplit : root.sites = pre ++ s :: post)
    (hcalls : root.callsAt path s = []) : Shown root path (pre ++ [s]) (w.register s) := by
  intro e he i hsite
  rw [chargedIn_concat_of_nil hcalls]
  rw [Walk.register_eq] at he
  rcases List.mem_append.mp he with hold | hnew
  · exact h e hold i hsite
  · rw [List.mem_singleton.mp hnew, Walk.entryFor_site, Option.some.injEq] at hsite
    subst hsite
    have hnone : ¬ root.ChargedIn path pre s.index := not_chargedIn_of_split hsplit
    rw [List.mem_singleton.mp hnew, Walk.entryFor_included]
    exact (or_iff_left hnone).symm

theorem Shown.call (h : Shown root path pre w) (spec : Specifier) (b : ImportBinding)
    (hcalls : root.callsAt path s ≠ []) : Shown root path (pre ++ [s]) (w.addCall s spec b) := by
  intro e' he' i hsite
  rw [Walk.addCall_entries] at he'
  obtain ⟨e, he, rfl⟩ := List.mem_map.mp he'
  have hnumber : e.site = some i := by
    by_cases hcharged : (e.site == s.enclosingFunction?) = true
    · rw [if_pos hcharged] at hsite
      exact hsite
    · rw [if_neg hcharged] at hsite
      exact hsite
  have hold : e ∈ w.entries := by
    obtain ⟨added, hentries, hadded⟩ := w.beforeCall_entries s
    rw [hentries] at he
    rcases List.mem_append.mp he with hold | hnew
    · exact hold
    · rw [(hadded e hnew).site] at hnumber
      cases hnumber
  rw [chargedIn_concat]
  by_cases hcharged : s.enclosingFunction? = some i
  · rw [if_pos (by simp [hnumber, hcharged])]
    exact iff_of_true rfl (.inr (.inr ⟨hcharged, hcalls⟩))
  · rw [if_neg (by simpa [hnumber] using fun heq => hcharged heq.symm), h e hold i hnumber]
    simp [hcharged]

theorem Shown.step (h : Shown root path pre w) (hsplit : root.sites = pre ++ s :: post)
    (hstep : Walk.Step s w w') (hcalls : w'.calls = w.calls ++ root.callsAt path s) :
    Shown root path (pre ++ [s]) w' := by
  cases hstep with
  | skip => exact h.unchanged rfl (by simpa using hcalls)
  | load b moduleLevel => exact h.unchanged rfl (by simpa [Walk.addBinding] using hcalls)
  | passOn b => exact h.unchanged rfl (by simpa using hcalls)
  | ask => exact h.unchanged rfl (by simpa using hcalls)
  | declare => exact h.declare hsplit (by simpa [Walk.register_eq] using hcalls)
  | call spec b =>
    refine h.call spec b fun hnil => ?_
    obtain ⟨before, hbefore⟩ := w.beforeCall_eq s
    rw [hnil, Walk.addCall_def, Walk.charge_fst, hbefore] at hcalls
    simp at hcalls

theorem Shown.settle (h : Shown root path pre w) {request : String × String}
    (hstep : Walk.Settling request w w') : Shown root path pre w' := by
  cases hstep with
  | skip => exact h
  | passOn => exact h
  | mark target =>
    intro e' he' i hsite
    obtain ⟨e, he, rfl⟩ := List.mem_map.mp he'
    by_cases hself : (e.site == target.site) = true
    · rw [if_pos hself]
      exact iff_of_true rfl (.inl rfl)
    · rw [if_neg hself] at hsite ⊢
      split
      · exact iff_of_true rfl (.inl rfl)
      · next hother =>
        rw [if_neg hother] at hsite
        exact h e he i hsite

end

theorem walkTo_shown (path : String) (root : Tree) (n : Nat) :
    Shown root path (root.sites.take n) (root.walkTo path n) := by
  refine walkTo_induction (P := Shown root path) path ?_ ?_ n
  · intro e he
    rw [Walk.start_entries] at he
    cases he
  · intro pre s post w w' hsplit _ hstep hcalls h
    exact h.step hsplit hstep hcalls

/-- A declaration is shown if it has an exported name, or a call in it is recorded. -/
theorem walkModule_included (path : String) (root : Tree) :
    Shown root path root.sites (walkModule path root) := by
  refine Walk.finish_induction (P := Shown root path root.sites) ?_ fun _ _ _ hstep h => h.settle hstep
  have hall := walkTo_shown path root root.sites.length
  rw [walkTo_length, List.take_length] at hall
  exact hall

end CodeAtlas.Script
