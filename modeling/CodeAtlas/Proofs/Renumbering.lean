import CodeAtlas.Proofs.Records
import CodeAtlas.Proofs.Unplaced

/-!
# Walks over numbered sites

The numbers of sites tell nodes apart and mean nothing else: a walk over sites that are numbered in
another way, without their places, makes the same entries under the other numbers (`renumbered_visit`,
`renumbered_finish`).
-/

namespace CodeAtlas.Script

open Function (Injective)

/-! ## Nodes around a site -/

/-- What is asked of a node around a site: of the program, only the part that plays the role of a name. -/
def Tree.outlined (t : Tree) : Tree :=
  if t.kind == .program then
    { kind := .program, span := default, children := ((t.child? .name).map Tree.unplaced).toList }
  else t.unplaced

namespace Tree

variable {t : Tree}

theorem outlined_of_ne (h : t.kind ≠ .program) : t.outlined = t.unplaced := by
  rw [outlined, if_neg (by simpa using h)]

@[simp] theorem outlined_kind (t : Tree) : t.outlined.kind = t.kind := by
  by_cases h : t.kind = .program
  · simp [outlined, h]
  · simp [outlined_of_ne h]

@[simp] theorem outlined_name (t : Tree) : t.outlined.child? .name = (t.child? .name).map unplaced := by
  by_cases h : t.kind = .program
  · rw [outlined, if_pos (by simp [h]), child?]
    cases hname : t.child? .name with
    | none => rfl
    | some name =>
      have hrole : name.role = some .name := by
        rw [child?] at hname
        simpa using List.find?_some hname
      simp [hrole]
  · rw [outlined_of_ne h, unplaced_child?]

@[simp] theorem outlined_binds (t : Tree) (name : String) : t.outlined.binds name = t.binds name := by
  by_cases h : t.kind = .program
  · simp [binds, h, Kind.isFunction, Kind.isBlockScope]
  · rw [outlined_of_ne h, unplaced_binds]

theorem outlined_child? (h : t.kind ≠ .program) (r : Role) :
    t.outlined.child? r = (t.child? r).map unplaced := by
  rw [outlined_of_ne h, unplaced_child?]

theorem outlined_hasToken (h : t.kind ≠ .program) (spelling : String) :
    t.outlined.hasToken spelling = t.hasToken spelling := by
  rw [outlined_of_ne h, unplaced_hasToken]

end Tree

namespace Site

def renumbered (f : Nat → Nat) (s : Site) : Site :=
  ⟨f s.index, s.tree.unplaced, s.above.map (Prod.map f Tree.outlined)⟩

section
variable (f : Nat → Nat) (s : Site)

theorem renumbered_around :
    (s.renumbered f).above.map (·.2) = (s.above.map (·.2)).map Tree.outlined := by
  simp [renumbered]

@[simp] theorem renumbered_tree : (s.renumbered f).tree = s.tree.unplaced := rfl

@[simp] theorem renumbered_index : (s.renumbered f).index = f s.index := rfl

@[simp] theorem renumbered_kind : (s.renumbered f).kind = s.kind := by
  simp [kind]

@[simp] theorem renumbered_parent? : (s.renumbered f).parent? = s.parent?.map Tree.outlined := by
  simp [parent?, renumbered, Function.comp_def]

@[simp] theorem renumbered_parentIs (k : Kind) : (s.renumbered f).parentIs k = s.parentIs k := by
  simp [parentIs, Function.comp_def]

@[simp] theorem renumbered_locallyBound (name : String) :
    (s.renumbered f).locallyBound name = s.locallyBound name := by
  simp [locallyBound, scopes, renumbered_around, List.takeWhile_map, Function.comp_def]

@[simp] theorem renumbered_enclosingFunction? :
    (s.renumbered f).enclosingFunction? = s.enclosingFunction?.map f := by
  simp [enclosingFunction?, renumbered, List.find?_map, Function.comp_def]

@[simp] theorem renumbered_inferredName? : (s.renumbered f).inferredName? = s.inferredName? := by
  have hparent : (s.renumbered f).parentBeyondParentheses? =
      s.parentBeyondParentheses?.map Tree.outlined := by
    simp [parentBeyondParentheses?, renumbered_around, List.dropWhile_map, Function.comp_def]
  unfold inferredName?
  rw [hparent, renumbered_tree, Tree.unplaced_child?]
  cases s.tree.child? .name with
  | some own => simp
  | none =>
    cases s.parentBeyondParentheses? with
    | none => rfl
    | some parent =>
      by_cases hp : parent.kind = .program
      · simp [hp]
      · simp only [Option.map_none, Option.map_some, Option.bind_eq_bind, Option.bind_some,
          Tree.outlined_kind, Tree.outlined_child? hp, Option.bind_map, Function.comp_def,
          Tree.unplaced_kind, Tree.unplaced_text]

@[simp] theorem renumbered_exportName? (name : Option String) :
    (s.renumbered f).exportName? name = s.exportName? name := by
  unfold exportName?
  rw [renumbered_parent?, renumbered_around]
  cases s.parent? with
  | none => rfl
  | some parent =>
    by_cases hp : parent.kind = .program
    · simp [hp]
    · simp only [Option.map_some, Option.bind_eq_bind, Option.bind_some, Tree.outlined_kind,
        Tree.outlined_hasToken hp, renumbered_tree, Tree.unplaced_role]
      generalize s.above.map (·.2) = around
      rcases around with _ | ⟨_, _ | ⟨declaration, _ | ⟨outer, rest⟩⟩⟩
      · rfl
      · rfl
      · rfl
      · simp only [List.map_cons, Tree.outlined_kind]

@[simp] theorem renumbered_owningClass? :
    (s.renumbered f).owningClass? = s.owningClass?.map (Prod.map id f) := by
  unfold owningClass?
  rw [renumbered_kind, renumbered_parentIs]
  by_cases hmethod : (s.kind == .methodDefinition && s.parentIs .classBody) = true
  · rw [if_pos hmethod, if_pos hmethod, renumbered]
    generalize s.above = above
    rcases above with _ | ⟨_, _ | ⟨owner, rest⟩⟩
    · rfl
    · rfl
    · simp [Function.comp_def]
  · rw [if_neg hmethod, if_neg hmethod]
    rfl

theorem isProgram_outlined (t : Option Tree) : isProgram (t.map Tree.outlined) = isProgram t := by
  simp [isProgram, Function.comp_def]

theorem beyondExport_outlined (ts : List Tree) :
    beyondExport (ts.map Tree.outlined) = (beyondExport ts).map Tree.outlined := by
  cases ts with
  | nil => rfl
  | cons t ts =>
    simp only [List.map_cons, beyondExport, Tree.outlined_kind, List.head?_map]
    split <;> rfl

@[simp] theorem renumbered_isTopLevel : (s.renumbered f).isTopLevel = s.isTopLevel := by
  unfold isTopLevel
  rw [renumbered_around]
  cases s.above.map (·.2) with
  | nil => rfl
  | cons parent rest =>
    have hparent := isProgram_outlined (some parent)
    rw [Option.map_some] at hparent
    simp only [List.map_cons, Tree.outlined_kind, List.head?_map, isProgram_outlined, hparent,
      ← List.map_drop, beyondExport_outlined]

@[simp] theorem renumbered_inModuleDeclarator :
    (s.renumbered f).inModuleDeclarator = s.inModuleDeclarator := by
  unfold inModuleDeclarator
  rw [renumbered_around]
  generalize s.above.map (·.2) = around
  rcases around with _ | ⟨declarator, _ | ⟨declaration, rest⟩⟩
  · rfl
  · rfl
  · simp only [List.map_cons, Tree.outlined_kind, beyondExport_outlined, isProgram_outlined]

@[simp] theorem renumbered_requiredNames :
    Walk.requiredNames (s.renumbered f) = Walk.requiredNames s := by
  unfold Walk.requiredNames
  rw [renumbered_parent?]
  cases s.parent? with
  | none => rfl
  | some parent =>
    by_cases hp : parent.kind = .program
    · simp [hp]
    · simp only [Option.map_some, Tree.outlined_kind, Tree.outlined_child? hp]
      cases parent.child? .name with
      | none => rfl
      | some target =>
        simp only [Option.map_some, Tree.unplaced_kind, Tree.unplaced_text, Tree.unplaced_children,
          List.filterMap_map, Function.comp_def, Tree.unplaced_child?, Option.bind_eq_bind,
          Option.bind_map]

end

end Site

/-! ## Entries under other numbers -/

def unplacedRecord (r : FunctionRecord) : FunctionRecord :=
  { r with span := r.span.map fun _ => default }

def Entry.renumbered (f : Nat → Nat) (e : Entry) : Entry :=
  { e with record := unplacedRecord e.record, site := e.site.map f }

namespace Walk

def renumbered (f : Nat → Nat) (w : Walk) : Walk :=
  { w with entries := w.entries.map (Entry.renumbered f) }

/-! ## One visit -/

section
variable (f : Nat → Nat) (w : Walk)

theorem renumbered_bindImport (t : Tree) (moduleLevel : Bool) :
    (w.bindImport t moduleLevel).renumbered f = (w.renumbered f).bindImport t.unplaced moduleLevel := by
  simp [bindImport, addBinding, renumbered]

theorem renumbered_visitExport (t : Tree) :
    (w.visitExport t).renumbered f = (w.renumbered f).visitExport t.unplaced := by
  simp only [visitExport, Tree.unplaced_child?]
  cases t.child? .source with
  | none => simp [renumbered]
  | some source => simp [renumbered]

theorem renumbered_uniqueId (name : String) : (w.renumbered f).uniqueId name = w.uniqueId name := by
  simp [uniqueId, renumbered, Entry.renumbered, List.countP_map, Function.comp_def]

theorem renumbered_withModuleEntry :
    w.withModuleEntry.renumbered f = (w.renumbered f).withModuleEntry := by
  unfold withModuleEntry
  have hany : (w.renumbered f).entries.any (·.site.isNone) = w.entries.any (·.site.isNone) := by
    simp [renumbered, Entry.renumbered, Function.comp_def]
  rw [hany]
  split
  · rfl
  · simp [renumbered, Entry.renumbered, unplacedRecord]

end

theorem unplaced_exportWithClass (r : FunctionRecord) (className : Option String) (owner : FunctionRecord) :
    unplacedRecord (exportWithClass r className owner) =
      exportWithClass (unplacedRecord r) className (unplacedRecord owner) := by
  unfold exportWithClass
  cases className with
  | none => rfl
  | some c =>
    have hexported : (unplacedRecord owner).exported = owner.exported := rfl
    simp only [hexported]
    split <;> rfl

section
variable {f : Nat → Nat} (hf : Injective f)
include hf

theorem renumbered_site_beq (e : Entry) (site : Option Nat) :
    ((e.renumbered f).site == site.map f) = (e.site == site) := by
  rw [Bool.eq_iff_iff, beq_iff_eq, beq_iff_eq]
  exact (Option.map_injective hf).eq_iff

variable (w : Walk) (s : Site)

theorem renumbered_find? (site : Option Nat) :
    (w.renumbered f).entries.find? (·.site == site.map f) =
      (w.entries.find? (·.site == site)).map (Entry.renumbered f) := by
  rw [renumbered, List.find?_map]
  congr 2
  exact funext fun e => renumbered_site_beq hf e site

theorem renumbered_charge (site : Option Nat) : (w.renumbered f).charge (site.map f) =
    ((w.charge site).1.renumbered f, (w.charge site).2) := by
  unfold charge
  rw [renumbered_find? hf]
  cases w.entries.find? (·.site == site) with
  | none => rfl
  | some e =>
    refine Prod.ext ?_ rfl
    simp only [Option.map_some, renumbered, List.map_map]
    congr 1
    refine List.map_congr_left fun e _ => ?_
    simp only [Function.comp_apply, renumbered_site_beq hf]
    split <;> rfl

theorem renumbered_addCall (spec : Specifier) (b : ImportBinding) :
    (w.addCall s spec b).renumbered f = (w.renumbered f).addCall (s.renumbered f) spec b := by
  have hbefore : (w.renumbered f).beforeCall (s.renumbered f) = (w.beforeCall s).renumbered f := by
    simp only [beforeCall, Site.renumbered_enclosingFunction?, Option.isNone_map,
      ← renumbered_withModuleEntry]
    split <;> rfl
  rw [addCall_def, addCall_def, hbefore, Site.renumbered_enclosingFunction?, renumbered_charge hf]
  rfl

theorem renumbered_visitCall :
    (w.visitCall s).renumbered f = (w.renumbered f).visitCall (s.renumbered f) := by
  have hrequire : (w.visitRequire s).renumbered f = (w.renumbered f).visitRequire (s.renumbered f) := by
    simp only [visitRequire, Site.renumbered_tree, Tree.unplaced_firstStringArgument?,
      Site.renumbered_requiredNames, Site.renumbered_inModuleDeclarator]
    cases s.tree.firstStringArgument? <;> rfl
  have hnamed : ∀ name, (w.visitNamedCall s name).renumbered f =
      (w.renumbered f).visitNamedCall (s.renumbered f) name := by
    intro name
    have hbound : (w.renumbered f).boundImport? name = w.boundImport? name := rfl
    simp only [visitNamedCall, Site.renumbered_locallyBound, hbound, ← hrequire]
    split
    · rfl
    · cases w.boundImport? name with
      | none => rfl
      | some found =>
        simp only [← renumbered_addCall hf]
        split <;> rfl
  simp only [visitCall, Site.renumbered_tree, Tree.unplaced_child?, Tree.unplaced_firstStringArgument?]
  cases s.tree.child? .callee with
  | none => rfl
  | some callee =>
    simp only [Option.map_some, Tree.unplaced_kind, Tree.unplaced_text, ← hnamed]
    split
    · cases s.tree.firstStringArgument? <;> rfl
    · rfl
    · rfl

theorem renumbered_register :
    (w.register s).renumbered f = (w.renumbered f).register (s.renumbered f) := by
  have hexport : (s.renumbered f).ownExport? = s.ownExport? := by simp [Site.ownExport?]
  have htop : (s.renumbered f).topName? = s.topName? := by simp [Site.topName?]
  have hdisplay : ∀ name exported, (w.renumbered f).displayName name exported =
      w.displayName name exported := fun _ _ => rfl
  have hlocal : ∀ display exported, localIdOf display exported (s.owningClass?.map (Prod.map id f)) =
      localIdOf display exported s.owningClass? := by
    intro display exported
    rcases s.owningClass? with _ | ⟨_ | className, index⟩ <;> rfl
  have hrecord : (w.renumbered f).recordFor (s.renumbered f) = unplacedRecord (w.recordFor s) := by
    simp only [recordFor, hexport, hdisplay, hlocal, renumbered_uniqueId, Site.renumbered_inferredName?,
      Site.renumbered_owningClass?, Site.renumbered_kind, Site.renumbered_tree, Tree.unplaced_span]
    cases s.ownExport? <;> rfl
  have hentry : (w.renumbered f).entryFor (s.renumbered f) = (w.entryFor s).renumbered f := by
    have hclass : ∀ index, (w.renumbered f).entryAt? (f index) =
        (w.entryAt? index).map (Entry.renumbered f) := fun index => renumbered_find? hf w (some index)
    simp only [entryFor, hrecord, hexport, htop, hdisplay, hlocal, Site.renumbered_inferredName?,
      Site.renumbered_owningClass?, Site.renumbered_index]
    rcases s.owningClass? with _ | ⟨className, index⟩
    · rfl
    · simp only [Option.map_some, Prod.map_apply, id_eq, hclass]
      cases w.entryAt? index with
      | none => rfl
      | some owner =>
        have hwith := unplaced_exportWithClass (w.recordFor s) className owner.record
        exact congrArg (fun r : FunctionRecord => Entry.mk r (some (f s.index)) _ _ none) hwith.symm
  rw [register_eq, register_eq, hentry, hexport, hdisplay, Site.renumbered_inferredName?]
  simp [renumbered]

theorem renumbered_visit : (w.visit s).renumbered f = (w.renumbered f).visit (s.renumbered f) := by
  unfold visit
  rw [Site.renumbered_kind]
  split
  · rw [Site.renumbered_parentIs]
    split
    · rfl
    · exact w.renumbered_bindImport f s.tree false
  · exact w.renumbered_visitExport f s.tree
  · exact renumbered_visitCall hf w s
  · split
    · exact renumbered_register hf w s
    · rfl

theorem renumbered_foldl_visit (sites : List Site) : (sites.foldl visit w).renumbered f =
    (sites.map (Site.renumbered f)).foldl visit (w.renumbered f) := by
  induction sites generalizing w with
  | nil => rfl
  | cons s sites ih => rw [List.foldl_cons, ih, renumbered_visit hf, List.map_cons, List.foldl_cons]

/-! ## Exports by name -/

theorem renumbered_exportEntry (target : Entry) (exported : String) :
    (w.exportEntry target exported).renumbered f =
      (w.renumbered f).exportEntry (target.renumbered f) exported := by
  simp only [exportEntry, renumbered, List.map_map]
  congr 1
  refine List.map_congr_left fun e _ => ?_
  have hsite := renumbered_site_beq hf e target.site
  have hother : (e.renumbered f).ownerId = e.ownerId ∧
      (target.renumbered f).record.id = target.record.id := ⟨rfl, rfl⟩
  simp only [Function.comp_apply]
  rw [show (target.renumbered f).site = target.site.map f from rfl, hsite, hother.1, hother.2]
  by_cases hself : (e.site == target.site) = true
  · rw [if_pos hself, if_pos hself]
    rfl
  · rw [if_neg hself, if_neg hself]
    split <;> rfl

theorem renumbered_resolveExport (request : String × String) :
    (w.resolveExport request).renumbered f = (w.renumbered f).resolveExport request := by
  obtain ⟨localName, exported⟩ := request
  have hfind : (w.renumbered f).entries.find? (·.topName == some localName) =
      (w.entries.find? (·.topName == some localName)).map (Entry.renumbered f) := by
    rw [renumbered, List.find?_map]
    rfl
  have hbound : (w.renumbered f).boundImport? localName = w.boundImport? localName := rfl
  simp only [resolveExport, hfind, hbound]
  cases w.entries.find? (·.topName == some localName) with
  | some target => exact renumbered_exportEntry hf w target exported
  | none =>
    cases w.boundImport? localName with
    | none => rfl
    | some found =>
      simp only [Option.map_none]
      split <;> rfl

theorem renumbered_finish : w.finish.renumbered f = (w.renumbered f).finish := by
  have run : ∀ requests : List (String × String), ∀ v : Walk, (requests.foldl resolveExport v).renumbered f =
      requests.foldl resolveExport (v.renumbered f) := by
    intro requests
    induction requests with
    | nil => exact fun _ => rfl
    | cons request requests ih =>
      intro v
      rw [List.foldl_cons, ih, renumbered_resolveExport hf, List.foldl_cons]
  exact run w.pendingExports w

end

end Walk

end CodeAtlas.Script
