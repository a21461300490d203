import CodeAtlas.Proofs.ExportNames
import CodeAtlas.Proofs.ModuleImports

/-!
# What a module passes on

A module passes names on by its `export ... from` statements and by export clauses for names that it
imports. The walk keeps the statements in their order and puts what the clauses pass on behind all of
them (`walkModule_offers`).
-/

namespace CodeAtlas.Script

/-! ## Offers, read off the tree -/

def Site.reexport? (s : Site) : Option ImportBinding :=
  if s.kind == .exportStatement then
    (s.tree.child? .source).map fun source =>
      { source := source.stringValue?.getD "", specifiers := Walk.reexportSpecifiers s.tree
        reexport := true }
  else none

def Site.requiredImports (s : Site) : List (Specifier × String) :=
  if s.Calls "require" ∧ s.inModuleDeclarator = true then
    s.tree.firstStringArgument?.toList.flatMap fun source => (Walk.requiredNames s).map (·, source)
  else []

namespace Tree

def declaredImports (root : Tree) : List (Specifier × String) :=
  if root.kind == .program then
    (root.children.filter (·.kind == .importStatement)).flatMap fun t =>
      (Walk.importSpecifiers t).map (·, t.importSource)
  else []

/-- The first import of a name. Declarations come before `require` calls, wherever they stand. -/
def importOf? (root : Tree) (x : String) : Option (Specifier × String) :=
  (root.declaredImports ++ root.sites.flatMap Site.requiredImports).find? (·.1.localName == x)

/-- What an export clause passes on: an imported name that no declaration of the module has. -/
def forwarded? (root : Tree) (request : String × String) : Option (String × Specifier) :=
  if (root.declaredAs? request.1).isSome then none
  else (root.importOf? request.1).bind fun x =>
    if x.1.binding == .wholeModule then none
    else some (x.2, ⟨request.2, x.1.importedName, .named, none⟩)

end Tree

def offersOf (bindings : List ImportBinding) : List (String × Specifier) :=
  bindings.flatMap fun b => b.specifiers.map (b.source, ·)

def Tree.offers (root : Tree) : List (String × Specifier) :=
  offersOf (root.sites.filterMap Site.reexport?) ++ root.requests.filterMap root.forwarded?

theorem reexportSpecifiers_named_or_whole {t : Tree} {spec : Specifier}
    (h : spec ∈ Walk.reexportSpecifiers t) : spec.binding = .named ∨ spec.importedName = "*" := by
  unfold Walk.reexportSpecifiers at h
  dsimp only at h
  split at h
  · rw [List.mem_singleton.mp h]
    exact .inr rfl
  · obtain ⟨child, -, hchild⟩ := List.mem_flatMap.mp h
    split at hchild
    · obtain ⟨pair, -, rfl⟩ := List.mem_map.mp hchild
      exact .inl rfl
    · obtain ⟨n, -, rfl⟩ := Option.map_eq_some_iff.mp (Option.mem_toList.mp hchild)
      exact .inr rfl
    · cases hchild

/-- What is not passed on under a name of its own is a whole module. -/
theorem offers_named_or_whole {root : Tree} {o : String × Specifier} (h : o ∈ root.offers) :
    o.2.binding = .named ∨ o.2.importedName = "*" := by
  rcases List.mem_append.mp h with h | h
  · obtain ⟨b, hb, ho⟩ := List.mem_flatMap.mp h
    obtain ⟨spec, hspec, rfl⟩ := List.mem_map.mp ho
    obtain ⟨s, -, hs⟩ := List.mem_filterMap.mp hb
    unfold Site.reexport? at hs
    split at hs
    · obtain ⟨source, -, rfl⟩ := Option.map_eq_some_iff.mp hs
      exact reexportSpecifiers_named_or_whole hspec
    · cases hs
  · obtain ⟨request, -, ho⟩ := List.mem_filterMap.mp h
    unfold Tree.forwarded? at ho
    split at ho
    · cases ho
    · obtain ⟨x, -, hx⟩ := Option.bind_eq_some_iff.mp ho
      split at hx
      · cases hx
      · cases hx
        exact .inl rfl

namespace Walk

/-! ## Statements -/

def reexports (w : Walk) : List ImportBinding :=
  w.imports.filter (·.reexport)

theorem addBinding_reexports (w : Walk) {b : ImportBinding} (h : b.reexport = false)
    (moduleLevel : Bool) : (w.addBinding b moduleLevel).reexports = w.reexports := by
  simp [reexports, addBinding, h]

theorem visitCall_reexports (w : Walk) (s : Site) : (w.visitCall s).reexports = w.reexports := by
  unfold visitCall
  split
  · split
    · split
      · exact addBinding_reexports w rfl false
      · rfl
    · unfold visitNamedCall
      split
      · unfold visitRequire
        split
        · exact addBinding_reexports w rfl _
        · rfl
      · split
        · split
          · rfl
          · rw [reexports, addCall_imports, reexports]
        · rfl
    · rfl
  · rfl

theorem visit_reexports (w : Walk) (s : Site) :
    (w.visit s).reexports = w.reexports ++ s.reexport?.toList := by
  have other : s.kind ≠ .exportStatement → s.reexport? = none := fun h => by
    rw [Site.reexport?, if_neg (by simpa using h)]
  unfold visit
  split
  · rename_i hkind
    rw [other (by simp [hkind]), Option.toList_none, List.append_nil]
    split
    · rfl
    · exact addBinding_reexports w rfl false
  · rename_i hkind
    unfold visitExport
    rw [Site.reexport?, if_pos (by simpa using hkind)]
    cases s.tree.child? .source with
    | some source => simp [reexports]
    | none => simp [reexports]
  · rename_i hkind
    rw [other (by simp [hkind]), Option.toList_none, List.append_nil, visitCall_reexports]
  · rename_i hkind _
    rw [other hkind, Option.toList_none, List.append_nil]
    split <;> rfl

theorem start_reexports (path : String) (root : Tree) : (start path root).reexports = [] :=
  start_induction (P := fun w => w.reexports = []) rfl fun v _ moduleLevel hb _ h =>
    (addBinding_reexports v hb moduleLevel).trans h

theorem foldl_visit_reexports (sites : List Site) : ∀ w : Walk,
    (sites.foldl visit w).reexports = w.reexports ++ sites.filterMap Site.reexport? := by
  induction sites with
  | nil => simp
  | cons s sites ih =>
    intro w
    rw [List.foldl_cons, ih, visit_reexports, List.append_assoc]
    cases hs : s.reexport? <;> simp [hs]

/-! ## Imported names -/

def known (w : Walk) : List (Specifier × String) :=
  w.bound.map fun x => (x.1, x.2.source)

theorem addBinding_known (w : Walk) (b : ImportBinding) (moduleLevel : Bool) :
    (w.addBinding b moduleLevel).known =
      w.known ++ if moduleLevel then b.specifiers.map (·, b.source) else [] := by
  cases moduleLevel <;> simp [known, addBinding, Function.comp_def]

theorem foldl_bindImport_known (moduleLevel : Bool) (ts : List Tree) : ∀ w : Walk,
    (ts.foldl (fun w t => w.bindImport t moduleLevel) w).known = w.known ++
      if moduleLevel then ts.flatMap fun t => (importSpecifiers t).map (·, t.importSource) else [] := by
  induction ts with
  | nil => simp
  | cons t ts ih =>
    intro w
    have hstep : (w.bindImport t moduleLevel).known = w.known ++
        if moduleLevel then (importSpecifiers t).map (·, t.importSource) else [] :=
      addBinding_known ..
    rw [List.foldl_cons, ih, hstep]
    cases moduleLevel <;> simp

theorem start_known (path : String) (root : Tree) : (start path root).known = root.declaredImports :=
  foldl_bindImport_known ..

theorem visitRequire_known (w : Walk) {s : Site} (hcall : s.Calls "require") :
    (w.visitRequire s).known = w.known ++ s.requiredImports := by
  unfold visitRequire Site.requiredImports
  cases hsource : s.tree.firstStringArgument? with
  | none => simp
  | some source =>
    dsimp only
    rw [addBinding_known]
    by_cases hmodule : s.inModuleDeclarator = true
    · simp [hmodule, hcall]
    · simp [hmodule]

theorem visit_known (w : Walk) (s : Site) : (w.visit s).known = w.known ++ s.requiredImports := by
  by_cases h : s.Calls "require" ∧ s.locallyBound "require" = false
  · obtain ⟨hcall, hfree⟩ := h
    rw [visit_of_calls hcall, visitNamedCall, if_pos (by simp [hfree])]
    exact visitRequire_known w hcall
  · -- a call that initialises a variable of the module stands in no scope that could bind `require`
    have hnone : s.requiredImports = [] := by
      rw [Site.requiredImports, if_neg]
      rintro ⟨hcall, hmodule⟩
      obtain ⟨d, hd⟩ := Site.inModuleDeclarator_iff.mp hmodule
      exact h ⟨hcall, hd.locallyBound_eq "require"⟩
    rw [known, visit_bound w h, hnone, List.append_nil, known]

theorem foldl_visit_known (sites : List Site) : ∀ w : Walk,
    (sites.foldl visit w).known = w.known ++ sites.flatMap Site.requiredImports := by
  induction sites with
  | nil => simp
  | cons s sites ih =>
    intro w
    rw [List.foldl_cons, ih, visit_known, List.append_assoc, List.flatMap_cons]

/-! ## Clauses -/

def forwards? (w : Walk) (request : String × String) : Option ImportBinding :=
  if (w.named? request.1).isSome then none
  else (w.boundImport? request.1).bind fun x =>
    if x.1.binding == .wholeModule then none
    else some { source := x.2.source, kind := x.2.kind
                specifiers := [⟨request.2, x.1.importedName, .named, none⟩], reexport := true }

def NamesSites (w : Walk) : Prop :=
  ∀ e ∈ w.entries, e.site = none → e.topName = none

theorem named?_isSome {w : Walk} (h : w.NamesSites) (name : String) :
    (w.named? name).isSome = (w.entries.find? (·.topName == some name)).isSome := by
  unfold named?
  cases hfind : w.entries.find? (·.topName == some name) with
  | none => rfl
  | some e =>
    cases hsite : e.site with
    | some i => simp [hsite]
    | none =>
      have htop := List.find?_some hfind
      rw [h e (List.mem_of_find?_eq_some hfind) hsite] at htop
      cases htop

theorem resolveExport_reexports {w : Walk} (h : w.NamesSites) (request : String × String) :
    (w.resolveExport request).reexports = w.reexports ++ (w.forwards? request).toList := by
  obtain ⟨localName, exported⟩ := request
  rw [forwards?, named?_isSome h, resolveExport]
  dsimp only
  cases w.entries.find? (·.topName == some localName) with
  | some target => simp [exportEntry, reexports]
  | none =>
    cases w.boundImport? localName with
    | none => simp
    | some x =>
      by_cases hwhole : x.1.binding = .wholeModule
      · simp [hwhole]
      · simp [hwhole, reexports]

theorem Settling.bound_eq {request : String × String} {w w' : Walk} (h : Settling request w w') :
    w'.bound = w.bound := by
  cases h <;> rfl

theorem mem_exportEntry {w : Walk} {target e : Entry} {exported : String}
    (he : e ∈ (w.exportEntry target exported).entries) :
    ∃ e₀ ∈ w.entries, e.site = e₀.site ∧ e.topName = e₀.topName := by
  obtain ⟨e₀, he₀, rfl⟩ := List.mem_map.mp he
  refine ⟨e₀, he₀, ?_⟩
  split
  · exact ⟨rfl, rfl⟩
  · split <;> exact ⟨rfl, rfl⟩

theorem Settling.namesSites {request : String × String} {w w' : Walk} (h : Settling request w w')
    (hw : w.NamesSites) : w'.NamesSites := by
  cases h with
  | skip => exact hw
  | passOn => exact hw
  | mark target =>
    intro e he hsite
    obtain ⟨e₀, he₀, hsame, htop⟩ := mem_exportEntry he
    rw [htop]
    exact hw e₀ he₀ (hsame.symm.trans hsite)

theorem Settling.forwards?_eq {request : String × String} {w w' : Walk} (h : Settling request w w')
    (q : String × String) : w'.forwards? q = w.forwards? q := by
  rw [forwards?, forwards?, h.named?_eq, boundImport?, boundImport?, h.bound_eq]

/-- Requests do not change what later requests find, so each can be read off the first walk. -/
theorem settled_reexports (requests : List (String × String)) : ∀ {w : Walk}, w.NamesSites →
    (requests.foldl resolveExport w).reexports = w.reexports ++ requests.filterMap w.forwards? := by
  induction requests with
  | nil => simp
  | cons request requests ih =>
    intro w hw
    have hstep := resolveExport_settling w request
    have hsame : (w.resolveExport request).forwards? = w.forwards? := funext hstep.forwards?_eq
    rw [List.foldl_cons, ih (hstep.namesSites hw), resolveExport_reexports hw, hsame,
      List.append_assoc]
    cases hq : w.forwards? request <;> simp [hq]

/-! ## Whole walks -/

section
variable (path : String) (root : Tree)

theorem visited_namesSites : (root.sites.foldl visit (start path root)).NamesSites := by
  intro e he hsite
  exact ((visited_progressed path (List.append_nil _).symm).recorded.others e he hsite).topName

theorem walkModule_reexports : (walkModule path root).reexports =
    root.sites.filterMap Site.reexport? ++
      root.requests.filterMap (root.sites.foldl visit (start path root)).forwards? := by
  rw [walkModule, finish, visited_pendingExports, settled_reexports _ (visited_namesSites path root),
    foldl_visit_reexports, start_reexports, List.nil_append]

theorem forwards?_offers (request : String × String) :
    offersOf ((root.sites.foldl visit (start path root)).forwards? request).toList =
      (root.forwarded? request).toList := by
  have hnamed := (visited_progressed path (List.append_nil root.sites).symm).recorded.named?_eq request.1
  have hknown : (root.sites.foldl visit (start path root)).known =
      root.declaredImports ++ root.sites.flatMap Site.requiredImports := by
    rw [foldl_visit_known, start_known]
  generalize root.sites.foldl visit (start path root) = w at hnamed hknown
  have himport : root.importOf? request.1 =
      (w.boundImport? request.1).map fun x => (x.1, x.2.source) := by
    rw [Tree.importOf?, ← hknown, known, List.find?_map]
    rfl
  rw [forwards?, Tree.forwarded?, hnamed, Option.isSome_map, ← Tree.declaredAs?, himport]
  by_cases hdeclared : (root.declaredAs? request.1).isSome = true
  · rw [if_pos hdeclared, if_pos hdeclared]
    rfl
  · rw [if_neg hdeclared, if_neg hdeclared]
    cases w.boundImport? request.1 with
    | none => rfl
    | some x =>
      by_cases hwhole : x.1.binding = .wholeModule
      · simp [hwhole, offersOf]
      · simp [hwhole, offersOf]

/-- The re-exports of a module's walk are what its tree offers, in that order. -/
theorem walkModule_offers : offersOf (walkModule path root).reexports = root.offers := by
  have hclauses : offersOf (root.requests.filterMap
      (root.sites.foldl visit (start path root)).forwards?) = root.requests.filterMap root.forwarded? := by
    rw [List.filterMap_eq_flatMap_toList, List.filterMap_eq_flatMap_toList, offersOf, List.flatMap_assoc]
    congr 1
    exact funext (forwards?_offers path root)
  rw [walkModule_reexports, Tree.offers, ← hclauses]
  exact List.flatMap_append

theorem walkModule_reexports_untied : ∀ b ∈ (walkModule path root).reexports, b.target = none := by
  rw [walkModule_reexports]
  intro b hb
  rcases List.mem_append.mp hb with hb | hb
  · obtain ⟨s, -, hs⟩ := List.mem_filterMap.mp hb
    unfold Site.reexport? at hs
    split at hs
    · obtain ⟨source, -, rfl⟩ := Option.map_eq_some_iff.mp hs
      rfl
    · cases hs
  · obtain ⟨request, -, hrequest⟩ := List.mem_filterMap.mp hb
    unfold forwards? at hrequest
    split at hrequest
    · cases hrequest
    · obtain ⟨x, -, hx⟩ := Option.bind_eq_some_iff.mp hrequest
      split at hx
      · cases hx
      · cases hx
        rfl

end

end Walk

end CodeAtlas.Script
