import CodeAtlas.Proofs.CallTrace

/-!
# What the names of a module are imported from

An import declaration of the program binds its names for the whole module. A `require` call that
initialises a variable of the module binds them from its site on (`walkTo_knows_iff`).
-/

namespace CodeAtlas.Script

namespace Tree

/-! ## Names of an import declaration -/

def importSource (t : Tree) : String :=
  ((t.child? .source).bind (·.stringValue?)).getD ""

inductive Brings (part : Tree) : Specifier → Prop
  | default (hk : part.kind = .identifier) : Brings part ⟨part.text, "default", .defaultExport, none⟩
  | whole {n : Tree} (hk : part.kind = .namespaceImport) (hn : part.firstOfKind? .identifier = some n) :
      Brings part ⟨n.text, "*", .wholeModule, none⟩
  | named {i n : Tree} (hk : part.kind = .namedImports) (hi : i ∈ part.children)
      (hik : i.kind = .importSpecifier) (hn : i.child? .name = some n)
      (ha : i.child? .aliasName = none) : Brings part ⟨n.spelledName, n.spelledName, .named, none⟩
  | renamed {i n a : Tree} (hk : part.kind = .namedImports) (hi : i ∈ part.children)
      (hik : i.kind = .importSpecifier) (hn : i.child? .name = some n)
      (ha : i.child? .aliasName = some a) : Brings part ⟨a.text, n.spelledName, .named, none⟩

theorem mem_clauseSpecifiers_iff {part : Tree} {spec : Specifier} :
    spec ∈ Walk.clauseSpecifiers part ↔ part.Brings spec := by
  constructor
  · intro h
    unfold Walk.clauseSpecifiers at h
    split at h
    · rename_i hk
      rw [List.mem_singleton.mp h]
      exact .default hk
    · rename_i hk
      obtain ⟨n, hn, rfl⟩ := Option.map_eq_some_iff.mp (Option.mem_toList.mp h)
      exact .whole hk hn
    · rename_i hk
      obtain ⟨i, hi, heq⟩ := List.mem_filterMap.mp h
      obtain ⟨hi, hik⟩ := List.mem_filter.mp hi
      obtain ⟨n, hn, heq⟩ := Option.bind_eq_some_iff.mp heq
      cases ha : i.child? .aliasName with
      | none =>
        rw [ha] at heq
        cases heq
        exact .named hk hi (beq_iff_eq.mp hik) hn ha
      | some a =>
        rw [ha] at heq
        cases heq
        exact .renamed hk hi (beq_iff_eq.mp hik) hn ha
    · cases h
  · intro h
    unfold Walk.clauseSpecifiers
    cases h with
    | default hk => simp [hk]
    | whole hk hn => simp [hk, hn]
    | named hk hi hik hn ha =>
      simp only [hk]
      exact List.mem_filterMap.mpr ⟨_, List.mem_filter.mpr ⟨hi, beq_iff_eq.mpr hik⟩, by simp [hn, ha]⟩
    | renamed hk hi hik hn ha =>
      simp only [hk]
      exact List.mem_filterMap.mpr ⟨_, List.mem_filter.mpr ⟨hi, beq_iff_eq.mpr hik⟩, by simp [hn, ha]⟩

theorem mem_importSpecifiers_iff {t : Tree} {spec : Specifier} : spec ∈ Walk.importSpecifiers t ↔
    ∃ clause ∈ t.children, clause.kind = .importClause ∧
      ∃ part ∈ clause.children, part.Brings spec := by
  simp [Walk.importSpecifiers, mem_clauseSpecifiers_iff, and_assoc]

/-! ## Names of a `require` call -/

/-- The first argument of the call that is no comment is the source. The walk does not see it behind a
comment. -/
inductive Loads (call : Tree) : Bool → String → Prop
  | plain {source : String} (h : call.firstStringArgument? = some source) : Loads call true source
  | commented {arguments c first : Tree} {source : String}
      (harguments : call.child? .arguments = some arguments)
      (hc : arguments.namedChildren.head? = some c) (hck : c.kind = .comment)
      (hfirst : arguments.namedChildren.find? (·.kind != .comment) = some first)
      (hsource : first.stringValue? = some source) : Loads call false source

/-- The pattern gives the name to what is loaded, or to a property of it, whose name counts as it is
written. The walk does not see a new name that has a default. -/
inductive Takes (target : Tree) : Bool → Specifier → Prop
  | whole (hk : target.kind = .identifier) :
      Takes target true ⟨target.text, "default", .defaultExport, none⟩
  | property {p : Tree} (hk : target.kind = .objectPattern) (hp : p ∈ target.children)
      (hpk : p.kind = .shorthandPattern) : Takes target true ⟨p.text, p.text, .named, none⟩
  | renamed {p key value : Tree} (hk : target.kind = .objectPattern) (hp : p ∈ target.children)
      (hpk : p.kind = .pairPattern) (hkey : p.child? .key = some key)
      (hvalue : p.child? .value = some value) (hvk : value.kind = .identifier) :
      Takes target true ⟨value.text, key.text, .named, none⟩
  | defaulted {p left : Tree} (hk : target.kind = .objectPattern) (hp : p ∈ target.children)
      (hpk : p.kind = .objectAssignmentPattern) (hleft : p.child? .left = some left) :
      Takes target true ⟨left.text, left.text, .named, none⟩
  | renamedDefaulted {p key value left : Tree} (hk : target.kind = .objectPattern)
      (hp : p ∈ target.children) (hpk : p.kind = .pairPattern) (hkey : p.child? .key = some key)
      (hvalue : p.child? .value = some value) (hvk : value.kind = .assignmentPattern)
      (hleft : value.child? .left = some left) (hlk : left.kind = .identifier) :
      Takes target false ⟨left.text, key.text, .named, none⟩

end Tree

namespace Site

inductive Initialises (s : Site) (d : Tree) : Prop
  | plain {declaration program : Tree} {outer : List Tree}
      (h : s.above.map (·.2) = d :: declaration :: program :: outer) (hd : d.kind = .variableDeclarator)
      (hk : declaration.kind.isDeclaration = true) (hp : program.kind = .program)
  | exported {declaration statement program : Tree} {outer : List Tree}
      (h : s.above.map (·.2) = d :: declaration :: statement :: program :: outer)
      (hd : d.kind = .variableDeclarator) (hk : declaration.kind.isDeclaration = true)
      (hs : statement.kind = .exportStatement) (hp : program.kind = .program)

theorem inModuleDeclarator_iff {s : Site} : s.inModuleDeclarator = true ↔ ∃ d, s.Initialises d := by
  constructor
  · intro h
    unfold inModuleDeclarator at h
    split at h
    · rename_i d declaration rest habove
      simp only [Bool.and_eq_true, beq_iff_eq] at h
      obtain ⟨⟨hd, hk⟩, hprogram⟩ := h
      cases rest with
      | nil => cases hprogram
      | cons t rest =>
        by_cases ht : t.kind = .exportStatement
        · cases rest with
          | nil => simp [beyondExport, isProgram, ht] at hprogram
          | cons program outer =>
            exact ⟨d, .exported habove hd hk ht (by simpa [beyondExport, isProgram, ht] using hprogram)⟩
        · exact ⟨d, .plain habove hd hk (by simpa [beyondExport, isProgram, ht] using hprogram)⟩
    · cases h
  · rintro ⟨d, h⟩
    unfold inModuleDeclarator
    cases h with
    | plain habove hd hk hp => simp [habove, hd, hk, beyondExport, isProgram, hp]
    | exported habove hd hk hs hp => simp [habove, hd, hk, beyondExport, isProgram, hs, hp]

section
variable {s : Site} {d : Tree} (h : s.Initialises d)
include h

theorem Initialises.kind : d.kind = .variableDeclarator := by
  cases h <;> assumption

theorem Initialises.parent? : s.parent? = some d := by
  have hhead : s.parent? = (s.above.map (·.2)).head? := by rw [List.head?_map, Site.parent?]
  rw [hhead]
  cases h with
  | plain habove => rw [habove, List.head?_cons]
  | exported habove => rw [habove, List.head?_cons]

/-- Nothing between the site and the program opens a scope. -/
theorem Initialises.locallyBound_eq (x : String) : s.locallyBound x = false := by
  have hnone : ∀ t : Tree, (t.kind.isFunction || t.kind.isBlockScope) = false → t.binds x = false := by
    intro t ht
    rw [Tree.binds, ht, Bool.false_and]
  have hdeclaration : ∀ k : Kind, k.isDeclaration = true →
      k ≠ .program ∧ (k.isFunction || k.isBlockScope) = false := by
    intro k hk
    unfold Kind.isDeclaration at hk
    split at hk
    · decide
    · decide
    · cases hk
  cases h with
  | plain habove hd hk hp =>
    obtain ⟨hprogram, hscope⟩ := hdeclaration _ hk
    simp [locallyBound, scopes, habove, hd, hprogram, hp, hnone d (by rw [hd]; rfl), hnone _ hscope]
  | exported habove hd hk hs hp =>
    obtain ⟨hprogram, hscope⟩ := hdeclaration _ hk
    simp [locallyBound, scopes, habove, hd, hprogram, hs, hp, hnone d (by rw [hd]; rfl),
      hnone _ hscope, hnone _ (by rw [hs]; rfl)]

theorem mem_requiredNames_iff {spec : Specifier} : spec ∈ Walk.requiredNames s ↔
    ∃ target, d.child? .name = some target ∧ target.Takes true spec := by
  unfold Walk.requiredNames
  simp only [h.parent?, h.kind, beq_self_eq_true, if_true]
  constructor
  · intro hspec
    split at hspec
    · rename_i target htarget
      refine ⟨target, htarget, ?_⟩
      split at hspec
      · rename_i hk
        rw [List.mem_singleton.mp hspec]
        exact .whole hk
      · rename_i hk
        obtain ⟨p, hp, heq⟩ := List.mem_filterMap.mp hspec
        split at heq
        · rename_i hpk
          cases heq
          exact .property hk hp hpk
        · rename_i hpk
          obtain ⟨key, hkey, heq⟩ := Option.bind_eq_some_iff.mp heq
          obtain ⟨value, hvalue, heq⟩ := Option.bind_eq_some_iff.mp heq
          split at heq
          · rename_i hvk
            cases heq
            exact .renamed hk hp hpk hkey hvalue (beq_iff_eq.mp hvk)
          · cases heq
        · rename_i hpk
          obtain ⟨left, hleft, heq⟩ := Option.bind_eq_some_iff.mp heq
          cases heq
          exact .defaulted hk hp hpk hleft
        · cases heq
      · cases hspec
    · cases hspec
  · rintro ⟨target, htarget, htakes⟩
    rw [htarget]
    cases htakes with
    | whole hk => simp [hk]
    | property hk hp hpk =>
      simp only [hk]
      exact List.mem_filterMap.mpr ⟨_, hp, by simp [hpk]⟩
    | renamed hk hp hpk hkey hvalue hvk =>
      simp only [hk]
      exact List.mem_filterMap.mpr ⟨_, hp, by simp [hpk, hkey, hvalue, hvk]⟩
    | defaulted hk hp hpk hleft =>
      simp only [hk]
      exact List.mem_filterMap.mpr ⟨_, hp, by simp [hpk, hleft]⟩

end

structure Requires (s : Site) (seen : Bool) (spec : Specifier) (source : String) : Prop where
  calls : s.Calls "require"
  names : ∃ loaded taken d target, seen = (loaded && taken) ∧ s.tree.Loads loaded source ∧
    s.Initialises d ∧ d.child? .name = some target ∧ target.Takes taken spec

theorem requires_iff {s : Site} (hcall : s.Calls "require") {spec : Specifier} {source : String} :
    s.Requires true spec source ↔ s.tree.firstStringArgument? = some source ∧
      s.inModuleDeclarator = true ∧ spec ∈ Walk.requiredNames s := by
  constructor
  · rintro ⟨-, loaded, taken, d, target, hseen, hload, hd, htarget, htakes⟩
    obtain ⟨rfl, rfl⟩ := Bool.and_eq_true_iff.mp hseen.symm
    cases hload with
    | plain hargument =>
      exact ⟨hargument, inModuleDeclarator_iff.mpr ⟨d, hd⟩,
        (mem_requiredNames_iff hd).mpr ⟨target, htarget, htakes⟩⟩
  · rintro ⟨hargument, hmodule, hspec⟩
    obtain ⟨d, hd⟩ := inModuleDeclarator_iff.mp hmodule
    obtain ⟨target, htarget, htakes⟩ := (mem_requiredNames_iff hd).mp hspec
    exact ⟨hcall, true, true, d, target, rfl, .plain hargument, hd, htarget, htakes⟩

end Site

/-! ## The imports the walk knows -/

namespace Walk

def Knows (w : Walk) (spec : Specifier) (source : String) : Prop :=
  ∃ b, (spec, b) ∈ w.bound ∧ b.source = source

theorem addBinding_knows_iff {w : Walk} {b : ImportBinding} {moduleLevel : Bool} {spec : Specifier}
    {source : String} : (w.addBinding b moduleLevel).Knows spec source ↔
      w.Knows spec source ∨ moduleLevel = true ∧ spec ∈ b.specifiers ∧ b.source = source := by
  cases moduleLevel <;> simp [Knows, addBinding, or_and_right, exists_or]

theorem visit_bound (w : Walk) {s : Site}
    (h : ¬ (s.Calls "require" ∧ s.locallyBound "require" = false)) : (w.visit s).bound = w.bound := by
  unfold visit
  split
  · split <;> rfl
  · unfold visitExport
    split <;> rfl
  · rename_i hkind
    unfold visitCall
    split
    · rename_i callee hcallee
      split
      · split <;> rfl
      · rename_i hidentifier
        have hload : ¬ (callee.text = "require" ∧ s.locallyBound callee.text = false) := by
          rintro ⟨hname, hfree⟩
          exact h ⟨⟨hkind, callee, hcallee, hidentifier, hname⟩, by rwa [hname] at hfree⟩
        rw [visitNamedCall, if_neg (by simpa using hload)]
        split
        · split
          · rfl
          · exact addCall_bound ..
        · rfl
      · rfl
    · rfl
  · split <;> rfl

theorem visitRequire_knows_iff {w : Walk} {s : Site} (hcall : s.Calls "require") {spec : Specifier}
    {source : String} :
    (w.visitRequire s).Knows spec source ↔ w.Knows spec source ∨ s.Requires true spec source := by
  rw [Site.requires_iff hcall, visitRequire]
  split
  · rename_i source' hsource
    rw [addBinding_knows_iff, hsource, Option.some.injEq]
    tauto
  · rename_i hnone
    simp [hnone]

/-- The visit of a site adds what the site requires, and nothing else. -/
theorem visit_knows_iff {w : Walk} {s : Site} {spec : Specifier} {source : String} :
    (w.visit s).Knows spec source ↔ w.Knows spec source ∨ s.Requires true spec source := by
  by_cases h : s.Calls "require" ∧ s.locallyBound "require" = false
  · obtain ⟨hcall, hfree⟩ := h
    rw [visit_of_calls hcall, visitNamedCall, if_pos (by simp [hfree])]
    exact visitRequire_knows_iff hcall
  · rw [Knows, visit_bound w h]
    refine ⟨.inl, fun hknows => hknows.resolve_right fun hrequires => h ⟨hrequires.calls, ?_⟩⟩
    obtain ⟨-, -, d, -, -, -, hd, -⟩ := hrequires.names
    exact hd.locallyBound_eq "require"

end Walk

inductive ImportForm
  | declared
  | required (site : Nat) (seen : Bool)

def ImportForm.heldAt (n : Nat) : ImportForm → Bool
  | declared => true
  | required site seen => seen && site < n

inductive Tree.Imports (root : Tree) : ImportForm → Specifier → String → Prop
  | declared {t clause part : Tree} {spec : Specifier} (hroot : root.kind = .program)
      (ht : t ∈ root.children) (hk : t.kind = .importStatement) (hclause : clause ∈ t.children)
      (hck : clause.kind = .importClause) (hpart : part ∈ clause.children) (h : part.Brings spec) :
      Imports root .declared spec t.importSource
  | required {b : Site} {seen : Bool} {spec : Specifier} {source : String} (hb : b ∈ root.sites)
      (h : b.Requires seen spec source) : Imports root (.required b.index seen) spec source

theorem foldl_bindImport_knows_iff {spec : Specifier} {source : String} (moduleLevel : Bool)
    (ts : List Tree) : ∀ w : Walk,
      (ts.foldl (fun w t => w.bindImport t moduleLevel) w).Knows spec source ↔ w.Knows spec source ∨
        moduleLevel = true ∧ ∃ t ∈ ts, spec ∈ Walk.importSpecifiers t ∧ t.importSource = source := by
  induction ts with
  | nil => simp
  | cons t ts ih =>
    intro w
    have hstep : (w.bindImport t moduleLevel).Knows spec source ↔ w.Knows spec source ∨
        moduleLevel = true ∧ spec ∈ Walk.importSpecifiers t ∧ t.importSource = source :=
      Walk.addBinding_knows_iff
    rw [List.foldl_cons, ih, hstep, List.exists_mem_cons_iff, or_assoc, ← and_or_left]

theorem start_knows_iff (path : String) {root : Tree} {spec : Specifier} {source : String} :
    (Walk.start path root).Knows spec source ↔ root.Imports .declared spec source := by
  have hempty : ¬ ({ path } : Walk).Knows spec source := by simp [Walk.Knows]
  rw [Walk.start, foldl_bindImport_knows_iff, or_iff_right hempty]
  constructor
  · rintro ⟨hroot, t, ht, hspec, rfl⟩
    obtain ⟨ht, hk⟩ := List.mem_filter.mp ht
    obtain ⟨clause, hclause, hck, part, hpart, hbrings⟩ := Tree.mem_importSpecifiers_iff.mp hspec
    exact .declared (beq_iff_eq.mp hroot) ht (beq_iff_eq.mp hk) hclause hck hpart hbrings
  · intro h
    cases h with
    | declared hroot ht hk hclause hck hpart hbrings =>
      exact ⟨beq_iff_eq.mpr hroot, _, List.mem_filter.mpr ⟨ht, beq_iff_eq.mpr hk⟩,
        Tree.mem_importSpecifiers_iff.mpr ⟨_, hclause, hck, _, hpart, hbrings⟩, rfl⟩

theorem foldl_visit_knows_iff {spec : Specifier} {source : String} (sites : List Site) : ∀ w : Walk,
    (sites.foldl Walk.visit w).Knows spec source ↔
      w.Knows spec source ∨ ∃ b ∈ sites, b.Requires true spec source := by
  induction sites with
  | nil => simp
  | cons s sites ih =>
    intro w
    rw [List.foldl_cons, ih, Walk.visit_knows_iff, List.exists_mem_cons_iff, or_assoc]

theorem mem_take_sites_iff {root : Tree} {s : Site} {n : Nat} :
    s ∈ root.sites.take n ↔ s ∈ root.sites ∧ s.index < n := by
  constructor
  · intro h
    obtain ⟨i, hi⟩ := List.getElem?_of_mem h
    rw [List.getElem?_take] at hi
    split at hi
    · rename_i hlt
      rw [index_of_getElem? hi]
      exact ⟨List.mem_of_getElem? hi, hlt⟩
    · cases hi
  · rintro ⟨hs, hlt⟩
    apply List.mem_of_getElem? (i := s.index)
    rw [List.getElem?_take_of_lt hlt, sites_getElem? hs]

/-- When the walk comes to a site it knows the imports that are held there. -/
theorem walkTo_knows_iff (path : String) {root : Tree} {spec : Specifier} {source : String} (n : Nat) :
    (root.walkTo path n).Knows spec source ↔
      ∃ form : ImportForm, form.heldAt n = true ∧ root.Imports form spec source := by
  rw [Tree.walkTo, foldl_visit_knows_iff, start_knows_iff]
  constructor
  · rintro (h | ⟨b, hb, h⟩)
    · exact ⟨.declared, rfl, h⟩
    · obtain ⟨hb, hlt⟩ := mem_take_sites_iff.mp hb
      exact ⟨.required b.index true, by simpa [ImportForm.heldAt] using hlt, .required hb h⟩
  · rintro ⟨form, hheld, h⟩
    cases h with
    | declared hroot ht hk hclause hck hpart hbrings =>
      exact .inl (.declared hroot ht hk hclause hck hpart hbrings)
    | required hb h =>
      simp only [ImportForm.heldAt, Bool.and_eq_true, decide_eq_true_eq] at hheld
      obtain ⟨rfl, hlt⟩ := hheld
      exact .inr ⟨_, mem_take_sites_iff.mpr ⟨hb, hlt⟩, h⟩

end CodeAtlas.Script
