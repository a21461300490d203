import CodeAtlas.Proofs.Sites
import CodeAtlas.Script.Extraction

/-!
# What a walk does, step by step

`Step` lists what the visit of a site can do to a walk and `Settling` what a request for an export
can; every fact about whole walks is an induction over these (`walk_induction`,
`finish_induction`).
-/

namespace CodeAtlas.Script

def Site.isDeclared (s : Site) : Bool :=
  s.kind.isFunction || s.kind.isClass

theorem Site.isDeclared_of_kind {s : Site} {k : Kind} (h : s.kind = k)
    (hk : (k.isFunction || k.isClass) = false) : s.isDeclared = false := by
  rw [isDeclared, h, hk]

def Site.requests (s : Site) : List (String × String) :=
  if s.kind == .exportStatement && (s.tree.child? .source).isNone then Walk.requestedExports s.tree
  else []

theorem Site.requests_of_kind {s : Site} (h : s.kind ≠ .exportStatement) : s.requests = [] := by
  simp [requests, h]

namespace Walk

/-! ## Specifiers

What a file's text binds is not tied to a file yet. -/

def Untied (specifiers : List Specifier) : Prop :=
  ∀ x ∈ specifiers, x.target = none

theorem Untied.nil : Untied [] := by
  simp [Untied]

theorem clauseSpecifiers_untied (part : Tree) : Untied (clauseSpecifiers part) := by
  unfold clauseSpecifiers
  intro x hx
  split at hx
  · rw [List.mem_singleton.mp hx]
  · obtain ⟨t, -, rfl⟩ := Option.map_eq_some_iff.mp (Option.mem_toList.mp hx)
    rfl
  · obtain ⟨t, -, ht⟩ := List.mem_filterMap.mp hx
    obtain ⟨name, -, heq⟩ := Option.bind_eq_some_iff.mp ht
    cases heq
    rfl
  · cases hx

theorem importSpecifiers_untied (t : Tree) : Untied (importSpecifiers t) := by
  intro x hx
  simp only [importSpecifiers, List.mem_flatMap] at hx
  obtain ⟨clause, -, part, -, hpart⟩ := hx
  exact clauseSpecifiers_untied part x hpart

theorem requiredNames_untied (s : Site) : Untied (requiredNames s) := by
  unfold requiredNames
  intro x hx
  split at hx
  · split at hx
    · split at hx
      · split at hx
        · rw [List.mem_singleton.mp hx]
        · obtain ⟨prop, -, hprop⟩ := List.mem_filterMap.mp hx
          split at hprop
          · cases hprop; rfl
          · simp only [Option.bind_eq_bind, Option.bind_eq_some_iff] at hprop
            obtain ⟨key, -, value, -, hvalue⟩ := hprop
            split at hvalue
            · cases hvalue; rfl
            · cases hvalue
          · obtain ⟨left, -, heq⟩ := Option.bind_eq_some_iff.mp hprop
            cases heq
            rfl
          · cases hprop
        · cases hx
      · cases hx
    · cases hx
  · cases hx

/-! ## One visit -/

inductive Step (s : Site) (w : Walk) : Walk → Prop
  | skip (hs : s.isDeclared = false) (hr : s.requests = []) : Step s w w
  | load (b : ImportBinding) (moduleLevel : Bool) (hs : s.isDeclared = false)
      (hb : b.reexport = false) (huntied : Untied b.specifiers) (hr : s.requests = []) :
      Step s w (w.addBinding b moduleLevel)
  | passOn (b : ImportBinding) (hs : s.isDeclared = false) (hb : b.reexport = true)
      (hr : s.requests = []) : Step s w { w with imports := w.imports ++ [b] }
  | ask (hs : s.isDeclared = false) :
      Step s w { w with pendingExports := w.pendingExports ++ s.requests }
  | declare (hs : s.isDeclared = true) (hr : s.requests = []) : Step s w (w.register s)
  | call (spec : Specifier) (b : ImportBinding) (hs : s.isDeclared = false) (hr : s.requests = [])
      (hbound : w.boundImport? spec.localName = some (spec, b)) (hspec : spec.binding ≠ .wholeModule)
      (hname : spec.localName ≠ "require") : Step s w (w.addCall s spec b)

theorem boundImport?_localName {w : Walk} {name : String} {spec : Specifier} {b : ImportBinding}
    (h : w.boundImport? name = some (spec, b)) : spec.localName = name := by
  have := List.find?_some h
  simpa using this

theorem visitNamedCall_step (w : Walk) (s : Site) (name : String) (hs : s.isDeclared = false)
    (hr : s.requests = []) : Step s w (w.visitNamedCall s name) := by
  unfold visitNamedCall
  split
  · unfold visitRequire
    split
    · exact .load _ _ hs rfl (requiredNames_untied s) hr
    · exact .skip hs hr
  · rename_i hrequire
    split
    · rename_i spec b hbound
      split
      · exact .skip hs hr
      · rename_i hcond
        simp only [Bool.or_eq_true, beq_iff_eq, not_or] at hcond
        have hlocal := boundImport?_localName hbound
        have hname : name ≠ "require" := by
          rintro rfl
          simp [hcond.1] at hrequire
        exact .call spec b hs hr (by rw [hlocal]; exact hbound) hcond.2 (by rw [hlocal]; exact hname)
    · exact .skip hs hr

theorem visit_step (w : Walk) (s : Site) : Step s w (w.visit s) := by
  unfold visit
  split
  · rename_i hkind
    have hs := s.isDeclared_of_kind hkind rfl
    have hr := s.requests_of_kind (by simp [hkind])
    split
    · exact .skip hs hr
    · exact .load _ _ hs rfl (importSpecifiers_untied s.tree) hr
  · rename_i hkind
    have hs := s.isDeclared_of_kind hkind rfl
    unfold visitExport
    split
    · rename_i source hsource
      exact .passOn _ hs rfl (by simp [Site.requests, hsource])
    · rename_i hsource
      have hr : s.requests = requestedExports s.tree := by simp [Site.requests, hkind, hsource]
      rw [← hr]
      exact .ask hs
  · rename_i hkind
    have hs := s.isDeclared_of_kind hkind rfl
    have hr := s.requests_of_kind (by simp [hkind])
    unfold visitCall
    split
    · split
      · split
        · exact .load _ _ hs rfl .nil hr
        · exact .skip hs hr
      · exact visitNamedCall_step w s _ hs hr
      · exact .skip hs hr
    · exact .skip hs hr
  · rename_i hkind _
    have hr := s.requests_of_kind hkind
    split
    · rename_i hdecl
      exact .declare hdecl hr
    · rename_i hdecl
      exact .skip (by simpa [Site.isDeclared] using hdecl) hr

/-! ## One request for an export -/

inductive Settling (request : String × String) (w : Walk) : Walk → Prop
  | skip (hnone : w.entries.find? (·.topName == some request.1) = none) : Settling request w w
  | mark (target : Entry) (htarget : w.entries.find? (·.topName == some request.1) = some target) :
      Settling request w (w.exportEntry target request.2)
  | passOn (b : ImportBinding) (hnone : w.entries.find? (·.topName == some request.1) = none)
      (hb : b.reexport = true) : Settling request w { w with imports := w.imports ++ [b] }

theorem resolveExport_settling (w : Walk) (request : String × String) :
    Settling request w (w.resolveExport request) := by
  obtain ⟨localName, exported⟩ := request
  simp only [resolveExport]
  split
  · rename_i target htarget
    exact .mark target htarget
  · rename_i hnone
    split
    · split
      · exact .skip hnone
      · exact .passOn _ hnone rfl
    · exact .skip hnone

/-! ## Whole walks -/

/-- What holds before the first site and is kept by each visit holds after any number of visits. -/
theorem walk_induction {root : Tree} {P : List Site → Walk → Prop} {w : Walk} (hstart : P [] w)
    (hstep : ∀ pre s post v v', root.sites = pre ++ s :: post → Step s v v' → P pre v →
      P (pre ++ [s]) v') {pre post : List Site} (hsplit : root.sites = pre ++ post) :
    P pre (pre.foldl visit w) := by
  have run : ∀ mid pre v, root.sites = pre ++ mid ++ post → P pre v → P (pre ++ mid) (mid.foldl visit v) := by
    intro mid
    induction mid with
    | nil => intro pre v _ h; simpa using h
    | cons s mid ih =>
      intro pre v hsplit h
      have hnext := hstep pre s (mid ++ post) v _ (by simpa using hsplit) (visit_step v s) h
      have := ih (pre ++ [s]) (v.visit s) (by simpa using hsplit) hnext
      simpa using this
  exact run pre [] w hsplit hstart

theorem finish_induction {P : Walk → Prop} {w : Walk} (hstart : P w)
    (hstep : ∀ v v' request, Settling request v v' → P v → P v') : P w.finish := by
  unfold finish
  generalize w.pendingExports = requests
  induction requests generalizing w with
  | nil => exact hstart
  | cons request requests ih =>
    exact ih (hstep w _ request (resolveExport_settling w request) hstart)

/-- The bindings made before anything is visited. -/
theorem start_induction {P : Walk → Prop} {path : String} {root : Tree} (hempty : P { path })
    (hload : ∀ v b moduleLevel, b.reexport = false → Untied b.specifiers → P v →
      P (v.addBinding b moduleLevel)) :
    P (start path root) := by
  unfold start
  generalize (⟨path, [], [], [], [], [], 0⟩ : Walk) = w at hempty
  generalize root.children.filter _ = ts
  induction ts generalizing w with
  | nil => exact hempty
  | cons t ts ih => exact ih _ (hload w _ _ rfl (importSpecifiers_untied t) hempty)

/-! ## Paths -/

theorem withModuleEntry_eq (w : Walk) : ∃ entries, w.withModuleEntry = { w with entries } := by
  unfold withModuleEntry
  split
  · exact ⟨w.entries, rfl⟩
  · exact ⟨_, rfl⟩

theorem charge_eq (w : Walk) (site : Option Nat) : ∃ entries, (w.charge site).1 = { w with entries } := by
  unfold charge
  split
  · exact ⟨_, rfl⟩
  · exact ⟨w.entries, rfl⟩

def beforeCall (w : Walk) (s : Site) : Walk :=
  if s.enclosingFunction?.isNone then w.withModuleEntry else w

theorem beforeCall_eq (w : Walk) (s : Site) : ∃ entries, w.beforeCall s = { w with entries } := by
  unfold beforeCall
  split
  · exact w.withModuleEntry_eq
  · exact ⟨w.entries, rfl⟩

theorem addCall_def (w : Walk) (s : Site) (spec : Specifier) (b : ImportBinding) :
    w.addCall s spec b =
      { ((w.beforeCall s).charge s.enclosingFunction?).1 with
        calls := ((w.beforeCall s).charge s.enclosingFunction?).1.calls ++
          [{ caller := ((w.beforeCall s).charge s.enclosingFunction?).2, localName := spec.localName
             importedName := some spec.importedName, source := some b.source }] } := rfl

/-- A call changes entries and calls only. -/
theorem addCall_eq (w : Walk) (s : Site) (spec : Specifier) (b : ImportBinding) :
    ∃ entries calls, w.addCall s spec b = { w with entries, calls } := by
  obtain ⟨before, hbefore⟩ := w.beforeCall_eq s
  obtain ⟨charged, hcharged⟩ := (w.beforeCall s).charge_eq s.enclosingFunction?
  rw [addCall_def, hcharged, hbefore]
  exact ⟨_, _, rfl⟩

theorem Step.path_eq {s : Site} {w w' : Walk} (h : Step s w w') : w'.path = w.path := by
  cases h with
  | call spec b =>
    obtain ⟨entries, calls, heq⟩ := addCall_eq w s spec b
    rw [heq]
  | _ => rfl

theorem visited_path (path : String) {root : Tree} {pre post : List Site}
    (hsplit : root.sites = pre ++ post) : (pre.foldl visit (start path root)).path = path := by
  refine walk_induction (P := fun _ w => w.path = path) ?_ ?_ hsplit
  · exact start_induction (P := fun w => w.path = path) rfl fun v b moduleLevel _ _ h => h
  · intro pre s post v v' _ hstep h
    rw [hstep.path_eq, h]

theorem walkModule_path (path : String) (root : Tree) : (walkModule path root).path = path := by
  refine finish_induction (P := fun w => w.path = path) ?_ ?_
  · exact visited_path path (List.append_nil _).symm
  · intro v v' request hstep h
    cases hstep <;> exact h

end Walk

end CodeAtlas.Script
