import CodeAtlas.Catalog
import CodeAtlas.Proofs.Assembly
import CodeAtlas.Proofs.Records

/-!
# Calls and what they are bound to

A walk binds a called name by the first module-level import of the name; assembly looks for the
first module-level specifier with the name and the source of the call. Both find the same specifier,
since the walk keeps its table in the order of its imports (`Coherent`).
-/

namespace CodeAtlas.Script

def importedNames (imports : List ImportBinding) : List (Specifier × ImportBinding) :=
  (imports.filter fun b => !b.reexport && b.moduleLevel).flatMap fun b => b.specifiers.map (·, b)

theorem importedNames_append (xs ys : List ImportBinding) :
    importedNames (xs ++ ys) = importedNames xs ++ importedNames ys := by
  simp [importedNames]

theorem importedNames_singleton (b : ImportBinding) : importedNames [b] =
    if !b.reexport && b.moduleLevel then b.specifiers.map (·, b) else [] := by
  by_cases h : (!b.reexport && b.moduleLevel) = true <;> simp [importedNames, h]

theorem importedNames_reexport {b : ImportBinding} (h : b.reexport = true) : importedNames [b] = [] := by
  simp [importedNames_singleton, h]

namespace Walk

/-! ## What later steps keep -/

def Shows (w : Walk) (id : String) : Prop :=
  ∃ e ∈ w.entries, e.record.id = id ∧ e.record.included = true

structure Keeps (w w' : Walk) : Prop where
  bound : ∃ more, w'.bound = w.bound ++ more
  shows : ∀ id, w.Shows id → w'.Shows id

theorem Keeps.refl_of {w w' : Walk} (hbound : w'.bound = w.bound) (hentries : w'.entries = w.entries) :
    Keeps w w' where
  bound := ⟨[], by simp [hbound]⟩
  shows := by
    intro id ⟨e, he, h⟩
    exact ⟨e, hentries ▸ he, h⟩

theorem Keeps.boundImport? {w w' : Walk} (h : Keeps w w') {name : String}
    {x : Specifier × ImportBinding} (hx : w.boundImport? name = some x) :
    w'.boundImport? name = some x := by
  obtain ⟨more, hmore⟩ := h.bound
  unfold Walk.boundImport? at hx ⊢
  rw [hmore, List.find?_append, hx, Option.some_or]

theorem addBinding_keeps (w : Walk) (b : ImportBinding) (moduleLevel : Bool) :
    Keeps w (w.addBinding b moduleLevel) where
  bound := by
    cases moduleLevel with
    | true => exact ⟨_, rfl⟩
    | false => exact ⟨[], by simp [addBinding]⟩
  shows := fun _ h => h

theorem register_keeps (w : Walk) (s : Site) : Keeps w (w.register s) where
  bound := ⟨[], by simp [register]⟩
  shows := by
    intro id ⟨e, he, h⟩
    obtain ⟨added, hentries, -⟩ := register_entries w s
    exact ⟨e, by rw [hentries]; exact List.mem_append_left _ he, h⟩

theorem addCall_bound (w : Walk) (s : Site) (spec : Specifier) (b : ImportBinding) :
    (w.addCall s spec b).bound = w.bound := by
  obtain ⟨entries, calls, heq⟩ := addCall_eq w s spec b
  rw [heq]

theorem addCall_keeps (w : Walk) (s : Site) (spec : Specifier) (b : ImportBinding) :
    Keeps w (w.addCall s spec b) where
  bound := ⟨[], by rw [addCall_bound, List.append_nil]⟩
  shows := by
    intro id ⟨e, he, hid, hincluded⟩
    obtain ⟨added, hentries, -⟩ := beforeCall_entries w s
    rw [Shows, addCall_entries, hentries]
    refine ⟨_, List.mem_map_of_mem (List.mem_append_left _ he), ?_⟩
    split
    · exact ⟨hid, rfl⟩
    · exact ⟨hid, hincluded⟩

theorem exportEntry_keeps (w : Walk) (target : Entry) (exported : String) :
    Keeps w (w.exportEntry target exported) where
  bound := ⟨[], by simp [exportEntry]⟩
  shows := by
    intro id ⟨e, he, hid, hincluded⟩
    refine ⟨_, List.mem_map_of_mem he, ?_⟩
    split
    · exact ⟨hid, rfl⟩
    · split
      · exact ⟨hid, rfl⟩
      · exact ⟨hid, hincluded⟩

/-! ## Coherent walks -/

/-- The call is charged to a shown record and says what its name is bound to. -/
structure Attributed (w : Walk) (c : CallSite) : Prop where
  name : c.localName ≠ "require"
  caller : w.Shows c.caller
  binding : ∃ spec b, w.boundImport? c.localName = some (spec, b) ∧ spec.binding ≠ .wholeModule ∧
    c.importedName = some spec.importedName ∧ c.source = some b.source

theorem Attributed.mono {w w' : Walk} (h : Keeps w w') {c : CallSite} (hc : w.Attributed c) :
    w'.Attributed c := by
  obtain ⟨spec, b, hbound, hrest⟩ := hc.binding
  exact ⟨hc.name, h.shows _ hc.caller, spec, b, h.boundImport? hbound, hrest⟩

/-- The table of bound names follows the imports, and all calls are attributed. -/
structure Coherent (w : Walk) : Prop where
  bound : w.bound = importedNames w.imports
  untied : ∀ x ∈ w.bound, x.1.target = none
  calls : ∀ c ∈ w.calls, w.Attributed c

theorem Coherent.of_keeps {w w' : Walk} (h : w.Coherent) (hkeeps : Keeps w w')
    (hbound : w'.bound = importedNames w'.imports) (huntied : ∀ x ∈ w'.bound, x.1.target = none)
    (hcalls : ∀ c ∈ w'.calls, c ∈ w.calls ∨ w'.Attributed c) : w'.Coherent where
  bound := hbound
  untied := huntied
  calls := by
    intro c hc
    rcases hcalls c hc with hold | hnew
    · exact (h.calls c hold).mono hkeeps
    · exact hnew

theorem Coherent.addBinding {w : Walk} (h : w.Coherent) {b : ImportBinding} (moduleLevel : Bool)
    (hb : b.reexport = false) (huntied : Untied b.specifiers) :
    (w.addBinding b moduleLevel).Coherent := by
  refine h.of_keeps (addBinding_keeps w b moduleLevel) ?_ ?_ fun c hc => .inl hc
  · have himports : (w.addBinding b moduleLevel).imports = w.imports ++ [{ b with moduleLevel }] := rfl
    rw [himports, importedNames_append, ← h.bound, importedNames_singleton]
    cases moduleLevel <;> simp [Walk.addBinding, hb]
  · intro x hx
    cases moduleLevel with
    | false => exact h.untied x (by simpa [Walk.addBinding] using hx)
    | true =>
      rcases List.mem_append.mp hx with hx | hx
      · exact h.untied x hx
      · obtain ⟨spec, hspec, rfl⟩ := List.mem_map.mp hx
        exact huntied spec hspec

theorem Coherent.passOn {w : Walk} (h : w.Coherent) {b : ImportBinding} (hb : b.reexport = true) :
    Coherent { w with imports := w.imports ++ [b] } := by
  refine h.of_keeps (.refl_of rfl rfl) ?_ h.untied fun c hc => .inl hc
  rw [importedNames_append, importedNames_reexport hb, List.append_nil]
  exact h.bound

/-- The function around a site, or the module, has an entry when the site is reached. -/
theorem beforeCall_find? {w : Walk} {s : Site}
    (h : ∀ i, s.enclosingFunction? = some i → ∃ e ∈ w.entries, e.site = some i) :
    ∃ e, (w.beforeCall s).entries.find? (·.site == s.enclosingFunction?) = some e := by
  rw [← Option.isSome_iff_exists, List.find?_isSome]
  unfold beforeCall
  cases hsite : s.enclosingFunction? with
  | none =>
    obtain ⟨e, he, hnone⟩ := withModuleEntry_site w
    exact ⟨e, he, by simp [hnone]⟩
  | some i =>
    obtain ⟨e, he, hi⟩ := h i hsite
    exact ⟨e, he, by simp [hi]⟩

theorem addCall_calls (w : Walk) (s : Site) (spec : Specifier) (b : ImportBinding) {e : Entry}
    (he : (w.beforeCall s).entries.find? (·.site == s.enclosingFunction?) = some e) :
    (w.addCall s spec b).calls = w.calls ++
      [{ caller := e.record.id, localName := spec.localName, importedName := some spec.importedName
         source := some b.source }] := by
  obtain ⟨before, hbefore⟩ := w.beforeCall_eq s
  rw [addCall_def, charge_snd he, charge_fst, hbefore]

theorem addCall_shows {w : Walk} {s : Site} (spec : Specifier) (b : ImportBinding) {e : Entry}
    (he : (w.beforeCall s).entries.find? (·.site == s.enclosingFunction?) = some e) :
    (w.addCall s spec b).Shows e.record.id := by
  rw [Shows, addCall_entries]
  refine ⟨_, List.mem_map_of_mem (List.mem_of_find?_eq_some he), ?_⟩
  have hsite := List.find?_some he
  rw [if_pos hsite]
  exact ⟨rfl, rfl⟩

theorem addCall_imports (w : Walk) (s : Site) (spec : Specifier) (b : ImportBinding) :
    (w.addCall s spec b).imports = w.imports := by
  obtain ⟨entries, calls, heq⟩ := addCall_eq w s spec b
  rw [heq]

theorem Coherent.addCall {w : Walk} (h : w.Coherent) {s : Site} {spec : Specifier} {b : ImportBinding}
    (hbound : w.boundImport? spec.localName = some (spec, b)) (hspec : spec.binding ≠ .wholeModule)
    (hname : spec.localName ≠ "require")
    (hsite : ∀ i, s.enclosingFunction? = some i → ∃ e ∈ w.entries, e.site = some i) :
    (w.addCall s spec b).Coherent := by
  have hkeeps := addCall_keeps w s spec b
  obtain ⟨e, he⟩ := beforeCall_find? hsite
  refine h.of_keeps hkeeps ?_ ?_ ?_
  · rw [addCall_bound, addCall_imports]
    exact h.bound
  · rw [addCall_bound]
    exact h.untied
  · intro c hc
    rw [addCall_calls w s spec b he] at hc
    rcases List.mem_append.mp hc with hc | hc
    · exact .inl hc
    · rw [List.mem_singleton.mp hc]
      exact .inr ⟨hname, addCall_shows spec b he, spec, b, hkeeps.boundImport? hbound, hspec, rfl, rfl⟩

structure Progressed (pre : List Site) (w : Walk) : Prop where
  coherent : w.Coherent
  recorded : Recorded pre w

theorem Progressed.step {root : Tree} {pre post : List Site} {s : Site} {w w' : Walk}
    (hsplit : root.sites = pre ++ s :: post) (hstep : Step s w w') (h : Progressed pre w) :
    Progressed (pre ++ [s]) w' where
  coherent := by
    cases hstep with
    | skip => exact h.coherent
    | load b moduleLevel _ hb huntied => exact h.coherent.addBinding moduleLevel hb huntied
    | passOn b _ hb => exact h.coherent.passOn hb
    | ask => exact h.coherent.of_keeps (.refl_of rfl rfl) h.coherent.bound h.coherent.untied fun c hc => .inl hc
    | declare =>
      exact h.coherent.of_keeps (register_keeps w s) h.coherent.bound h.coherent.untied fun c hc => .inl hc
    | call spec b _ _ hbound hspec hname =>
      refine h.coherent.addCall hbound hspec hname fun i hi => ?_
      obtain ⟨s', hs', rfl, hfunction⟩ := enclosingFunction?_visited hsplit hi
      obtain ⟨e, he, hdeclares⟩ := h.recorded.entry hs' (by simp [Site.isDeclared, hfunction])
      exact ⟨e, he, hdeclares.site⟩
  recorded := h.recorded.step hstep

theorem start_progressed (path : String) (root : Tree) : Progressed [] (start path root) := by
  refine ⟨start_induction (P := Coherent) ?_ ?_, start_recorded path root⟩
  · exact ⟨rfl, by simp, by simp⟩
  · intro v b moduleLevel hb huntied h
    exact h.addBinding moduleLevel hb huntied

theorem visited_progressed (path : String) {root : Tree} {pre post : List Site}
    (hsplit : root.sites = pre ++ post) : Progressed pre (pre.foldl visit (start path root)) :=
  walk_induction (P := Progressed) (start_progressed path root)
    (fun _ _ _ _ _ hsplit hstep h => h.step hsplit hstep) hsplit

theorem walkModule_coherent (path : String) (root : Tree) : (walkModule path root).Coherent := by
  refine finish_induction (P := Coherent) (visited_progressed path (List.append_nil _).symm).coherent ?_
  intro v v' request hstep h
  cases hstep with
  | skip => exact h
  | mark target => exact h.of_keeps (exportEntry_keeps v target request.2) h.bound h.untied fun c hc => .inl hc
  | passOn b _ hb => exact h.passOn hb

end Walk

end CodeAtlas.Script
