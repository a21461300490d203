import CodeAtlas.Proofs.ModuleImports
import CodeAtlas.Proofs.ShadowedCalls

/-!
# Calls of names that the module imports

A call of an imported name that no scope around it declares is recorded with what the import says, if
the walk knows the import when it comes to the call (`importedCall_recorded_iff_held`). It always knows
an import declaration. A `require` call it knows only behind its site, and only if it sees the source
and the name there.
-/

namespace CodeAtlas.Script

structure Tree.ImportsOnly (root : Tree) (form : ImportForm) (spec : Specifier) (source : String) :
    Prop where
  imports : root.Imports form spec source
  only : ∀ form' spec' source', root.Imports form' spec' source' → spec'.localName = spec.localName →
    form' = form ∧ spec' = spec ∧ source' = source

section
variable {root : Tree} {form : ImportForm} {spec : Specifier} {source : String}
  (h : root.ImportsOnly form spec source) (path : String) (n : Nat)
include h

/-- What the walk takes the name for is the import. -/
theorem Tree.ImportsOnly.of_boundImport? {spec' : Specifier} {b : ImportBinding}
    (hbound : (root.walkTo path n).boundImport? spec.localName = some (spec', b)) :
    form.heldAt n = true ∧ spec' = spec ∧ b.source = source := by
  have hknows : (root.walkTo path n).Knows spec' b.source := ⟨b, List.mem_of_find?_eq_some hbound, rfl⟩
  obtain ⟨form', hheld, himports⟩ := (walkTo_knows_iff path n).mp hknows
  have hname := Walk.boundImport?_localName hbound
  obtain ⟨rfl, hspec, hsource⟩ := h.only form' spec' b.source himports hname
  exact ⟨hheld, hspec, hsource⟩

theorem Tree.ImportsOnly.boundImport?_of_held (hheld : form.heldAt n = true) :
    ∃ b, (root.walkTo path n).boundImport? spec.localName = some (spec, b) ∧ b.source = source := by
  obtain ⟨b, hb, -⟩ := (walkTo_knows_iff path n).mpr ⟨form, hheld, h.imports⟩
  have hfound : ((root.walkTo path n).boundImport? spec.localName).isSome = true :=
    List.find?_isSome.mpr ⟨(spec, b), hb, beq_self_eq_true _⟩
  obtain ⟨⟨spec', b'⟩, hbound⟩ := Option.isSome_iff_exists.mp hfound
  obtain ⟨-, rfl, hsource⟩ := h.of_boundImport? path n hbound
  exact ⟨b', hbound, hsource⟩

end

/-- The call is recorded once, for the record of the function around it or of the module, exactly if
the walk knows the import when it comes there and the name is not `require`. -/
theorem importedCall_recorded_iff_held (path : String) {root : Tree} {s : Site} {form : ImportForm}
    {spec : Specifier} {source : String} (hs : s ∈ root.sites) (hcall : s.Calls spec.localName)
    (hfree : ∀ t ∈ s.scopes, ∀ form', t.Declares form' spec.localName → form'.recognised = false)
    (himport : root.ImportsOnly form spec source) (hspec : spec.binding ≠ .wholeModule) :
    (walkModule path root).calls = root.sites.flatMap (root.callsAt path) ∧
    (form.heldAt s.index = true ∧ spec.localName ≠ "require" →
      ∃ id, (walkModule path root).Identifies s.enclosingFunction? id ∧
        (s.enclosingFunction? = none → id = moduleId path) ∧
        root.callsAt path s = [⟨id, spec.localName, some spec.importedName, some source, none⟩]) ∧
    (¬ (form.heldAt s.index = true ∧ spec.localName ≠ "require") → root.callsAt path s = []) := by
  refine ⟨walkModule_calls path root, ?_, ?_⟩
  · rintro ⟨hheld, hname⟩
    obtain ⟨b, hbound, rfl⟩ := himport.boundImport?_of_held path s.index hheld
    have hlocal := locallyBound_eq_false hfree
    obtain ⟨id, hid, hcalls⟩ := callsAt_of_bound path hcall hs hlocal hname hbound hspec
    refine ⟨id, hid, fun hnone => ?_, hcalls⟩
    exact Walk.walkModule_moduleId path (Walk.mem_labels.mpr (hnone ▸ hid.entry))
  · intro hlost
    refine callsAt_eq_nil path hcall (.inr ?_)
    rintro ⟨hname, spec', b, hbound, -⟩
    exact hlost ⟨(himport.of_boundImport? path s.index hbound).1, hname⟩

/-! ## A function that stands before the import -/

open Assembly (leaf phrase)

/-- The statement `const g = () => x();`. -/
def callingArrow : Tree :=
  phrase .lexicalDeclaration [phrase .variableDeclarator [leaf .identifier "g" (some .name),
    phrase .arrowFunction [phrase .formalParameters [] (some .parameters),
      phrase .callExpression [leaf .identifier "x" (some .callee)] (some .body)] (some .value)]
    none] none

/-- The arrow function before `import { y as x } from './m'`. -/
def importingLater : Tree :=
  phrase .program [callingArrow,
    phrase .importStatement [
      phrase .importClause [phrase .namedImports [
        phrase .importSpecifier [leaf .identifier "y" (some .name),
          leaf .identifier "x" (some .aliasName)] none] none] none,
      sourceText (some .source)] none] none

def Site.Free (s : Site) (x : String) : Prop :=
  ∀ t ∈ s.scopes, ∀ form, ¬ t.Declares form x

theorem free_of_scopes {s : Site} {x : String} (h : s.locallyBound x = false)
    (hscopes : ∀ t ∈ s.scopes, t.kind ≠ .statementBlock ∧ t.kind ≠ .switchBody ∧
      ∀ b ∈ t.child? .body, b.kind ≠ .statementBlock) : s.Free x := by
  intro t ht form hdeclares
  obtain ⟨hblock, hswitch, hbody⟩ := hscopes t ht
  -- the other forms need a block or the body of a `switch`
  have hform : form.recognised = true := by
    cases hdeclares with
    | hoistedLoop _ hb hbk => exact absurd hbk (hbody _ hb)
    | markedStatement hk => exact absurd hk hblock
    | caseStatement hk => exact absurd hk hswitch
    | _ => rfl
  rw [locallyBound_iff.mpr ⟨t, ht, form, hform, hdeclares⟩] at h
  cases h

theorem importingLater_importsOnly :
    importingLater.ImportsOnly .declared ⟨"x", "y", .named, none⟩ "./m" := by
  have hbound : (Walk.start "a.ts" importingLater).bound = [(⟨"x", "y", .named, none⟩,
      { source := "./m", specifiers := [⟨"x", "y", .named, none⟩] })] := by decide +kernel
  have hnone : ∀ b ∈ importingLater.sites, ¬ b.Calls "require" := by decide +kernel
  constructor
  · rw [← start_knows_iff "a.ts", Walk.Knows, hbound]
    exact ⟨_, List.mem_singleton_self _, rfl⟩
  · intro form spec source h _
    cases form with
    | declared =>
      obtain ⟨b, hb, rfl⟩ := (start_knows_iff "a.ts").mpr h
      rw [hbound, List.mem_singleton, Prod.mk.injEq] at hb
      obtain ⟨rfl, rfl⟩ := hb
      exact ⟨rfl, rfl, rfl⟩
    | required site seen =>
      cases h with
      | required hb hrequires => exact absurd hrequires.calls (hnone _ hb)

theorem importedCall_of_later_import :
    ∃ s, importingLater.sites[6]? = some s ∧ s.Calls "x" ∧ s.Free "x" ∧
      ∃ id, (walkModule "a.ts" importingLater).Identifies s.enclosingFunction? id ∧
        importingLater.callsAt "a.ts" s = [⟨id, "x", some "y", some "./m", none⟩] := by
  refine ⟨importingLater.sites.get ⟨6, by decide⟩, rfl, ?_⟩
  generalize hs : importingLater.sites.get ⟨6, by decide⟩ = s
  have hcall : s.Calls "x" := by
    subst hs
    decide +kernel
  have hfree : s.Free "x" := by
    subst hs
    exact free_of_scopes (by decide +kernel) (by decide +kernel)
  have hmem : s ∈ importingLater.sites := hs ▸ List.get_mem ..
  have hothers : ∀ t ∈ s.scopes, ∀ form, t.Declares form "x" → form.recognised = false :=
    fun t ht form hdeclares => absurd hdeclares (hfree t ht form)
  obtain ⟨id, hid, -, hcalls⟩ := (importedCall_recorded_iff_held "a.ts" hmem hcall hothers
    importingLater_importsOnly (by decide)).2.1 ⟨rfl, by decide⟩
  exact ⟨hcall, hfree, id, hid, hcalls⟩

/-! ## Imports that the walk does not know at the call -/

/-- The call `require('./m')`. -/
def requireCall : Tree :=
  phrase .callExpression [leaf .identifier "require" (some .callee),
    phrase .arguments [sourceText none] (some .arguments)] (some .value)

def requireDeclarator (target : Tree) : Tree :=
  phrase .variableDeclarator [target, requireCall] none

def requireStatement (target : Tree) : Tree :=
  phrase .lexicalDeclaration [requireDeclarator target] none

def plainTarget : Tree := leaf .identifier "x" (some .name)

/-- The pattern `{ y: x = 1 }`. -/
def renamingTarget : Tree :=
  phrase .objectPattern [phrase .pairPattern [leaf .propertyIdentifier "y" (some .key),
    phrase .assignmentPattern [leaf .identifier "x" (some .left), leaf .number "1" none]
      (some .value)] none] (some .name)

theorem plainTarget_takes_iff {taken : Bool} {spec : Specifier} :
    plainTarget.Takes taken spec ↔ taken = true ∧ spec = ⟨"x", "default", .defaultExport, none⟩ := by
  have htext : plainTarget.text = "x" := leaf_text ..
  constructor
  · intro h
    cases h with
    | whole hk => exact ⟨rfl, by rw [htext]⟩
    | property hk | renamed hk | defaulted hk | renamedDefaulted hk => cases hk
  · rintro ⟨rfl, rfl⟩
    rw [← htext]
    exact .whole rfl

theorem renamingTarget_takes_iff {taken : Bool} {spec : Specifier} :
    renamingTarget.Takes taken spec ↔ taken = false ∧ spec = ⟨"x", "y", .named, none⟩ := by
  constructor
  · intro h
    cases h with
    | whole hk => cases hk
    | property hk hp hpk | defaulted hk hp hpk =>
      cases List.mem_singleton.mp hp
      cases hpk
    | renamed hk hp hpk hkey hvalue hvk =>
      cases List.mem_singleton.mp hp
      cases hvalue
      cases hvk
    | renamedDefaulted hk hp hpk hkey hvalue hvk hleft hlk =>
      cases List.mem_singleton.mp hp
      cases hkey
      cases hvalue
      cases hleft
      exact ⟨rfl, by rw [leaf_text, leaf_text]⟩
  · rintro ⟨rfl, rfl⟩
    have h : renamingTarget.Takes false _ :=
      .renamedDefaulted rfl (List.mem_singleton_self _) rfl rfl rfl rfl rfl rfl
    rwa [leaf_text, leaf_text] at h

theorem requireCall_loads_iff {loaded : Bool} {source : String} :
    requireCall.Loads loaded source ↔ loaded = true ∧ source = "./m" := by
  have hargument : requireCall.firstStringArgument? = some "./m" := by decide +kernel
  constructor
  · intro h
    cases h with
    | plain h =>
      rw [hargument] at h
      exact ⟨rfl, (Option.some.inj h).symm⟩
    | commented harguments hc hck =>
      cases harguments
      cases hc
      cases hck
  · rintro ⟨rfl, rfl⟩
    exact .plain hargument

/-- A module with one `require` call, whose target takes one name, imports only that. -/
theorem importsOnly_of_require {root target : Tree} {b : Site} {taken : Bool} {spec : Specifier}
    (hb : b ∈ root.sites) (htree : b.tree = requireCall) (hd : b.Initialises (requireDeclarator target))
    (hrole : target.role = some .name)
    (htakes : ∀ {taken' spec'}, target.Takes taken' spec' ↔ taken' = taken ∧ spec' = spec)
    (hnone : ∀ t ∈ root.children, t.kind ≠ .importStatement)
    (honly : ∀ b' ∈ root.sites, b'.Calls "require" → b'.index = b.index) :
    root.ImportsOnly (.required b.index taken) spec "./m" := by
  have htarget : (requireDeclarator target).child? .name = some target := by
    simp [requireDeclarator, phrase, Tree.child?, hrole]
  have hcall : b.Calls "require" := by
    exact ⟨by rw [Site.kind, htree]; rfl, _, by rw [htree]; rfl, rfl, leaf_text ..⟩
  constructor
  · refine .required hb ⟨hcall, true, taken, _, target, (Bool.true_and _).symm, ?_, hd, htarget,
      htakes.mpr ⟨rfl, rfl⟩⟩
    rw [htree]
    exact requireCall_loads_iff.mpr ⟨rfl, rfl⟩
  · intro form spec' source h _
    cases h with
    | declared _ ht hk => exact absurd hk (hnone _ ht)
    | @required b' _ _ _ hb' h =>
      have hindex := honly b' hb' h.calls
      -- a site is found by its number, so the call is the one at hand
      have heq : b' = b := by
        have hget := sites_getElem? hb'
        rw [hindex, sites_getElem? hb] at hget
        exact (Option.some.inj hget).symm
      subst heq
      obtain ⟨-, loaded, taken', d', target', rfl, hload, hd', htarget', htakes'⟩ := h
      rw [htree] at hload
      obtain ⟨rfl, rfl⟩ := requireCall_loads_iff.mp hload
      have hparent := hd.parent?
      rw [hd'.parent?] at hparent
      cases hparent
      rw [htarget] at htarget'
      cases htarget'
      obtain ⟨rfl, rfl⟩ := htakes.mp htakes'
      exact ⟨by rw [Bool.true_and], rfl, rfl⟩

/-- A `require` call behind the function, and a new name with a default, leave the call unrecorded. -/
theorem importedCall_lost_of_require :
    let late := phrase .program [callingArrow, requireStatement plainTarget] none
    let unseen := phrase .program [requireStatement renamingTarget, callStatement] none
    (∃ s, late.sites[6]? = some s ∧ s.Calls "x" ∧ s.Free "x" ∧
      late.ImportsOnly (.required 11 true) ⟨"x", "default", .defaultExport, none⟩ "./m" ∧
      late.callsAt "a.ts" s = []) ∧
    ∃ s, unseen.sites[17]? = some s ∧ s.Calls "x" ∧ s.Free "x" ∧
      unseen.ImportsOnly (.required 9 false) ⟨"x", "y", .named, none⟩ "./m" ∧
      unseen.callsAt "a.ts" s = [] := by
  intro late unseen
  constructor
  · refine ⟨late.sites.get ⟨6, by decide⟩, rfl, by decide +kernel,
      free_of_scopes (by decide +kernel) (by decide +kernel), ?_, by decide +kernel⟩
    exact importsOnly_of_require (List.get_mem late.sites ⟨11, by decide⟩) rfl (.plain rfl rfl rfl rfl)
      rfl plainTarget_takes_iff (by decide) (by decide +kernel)
  · refine ⟨unseen.sites.get ⟨17, by decide⟩, rfl, by decide +kernel,
      free_of_scopes (by decide +kernel) (by decide +kernel), ?_, by decide +kernel⟩
    exact importsOnly_of_require (List.get_mem unseen.sites ⟨9, by decide⟩) rfl (.plain rfl rfl rfl rfl)
      rfl renamingTarget_takes_iff (by decide) (by decide +kernel)

end CodeAtlas.Script
