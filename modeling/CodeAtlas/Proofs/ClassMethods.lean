import CodeAtlas.Proofs.RecordIds
import CodeAtlas.Proofs.ShownRecords

/-!
# Methods of exported classes

The methods of a class are exported with it on two ways. Where an `export` stands in front of the
class, they get the name that the class itself has in the text; where an export clause names the class,
they get the name that its record shows. A class that has its name from a variable and is exported in
front of that variable takes neither way, so its methods stay private (`method_exported_iff`).
-/

namespace CodeAtlas.Script

structure Site.IsMethodOf (m c : Site) : Prop where
  kind : m.kind = .methodDefinition
  around : ∃ body rest, m.above = body :: (c.index, c.tree) :: rest ∧ body.2.kind = .classBody

/-- The class hands the export in front of it on to its methods. -/
def Site.exportsInPlace (c : Site) : Bool :=
  c.ownExport?.isSome && (c.tree.child? .name).any (!·.text.isEmpty)

def Tree.exportsByName (root : Tree) (c : Site) : Bool :=
  root.requests.any fun q => (root.declaredAs? q.1).map (·.index) == some c.index

namespace Site.IsMethodOf

variable {m c : Site} (h : m.IsMethodOf c)
include h

theorem parent_kind : m.parent?.map (·.kind) = some .classBody := by
  obtain ⟨body, rest, habove, hbody⟩ := h.around
  simp [parent?, habove, hbody]

theorem owningClass?_eq : m.owningClass? = some ((c.tree.child? .name).map (·.text), c.index) := by
  obtain ⟨body, rest, habove, hbody⟩ := h.around
  have hparent : m.parentIs .classBody = true := by
    rw [parentIs, h.parent_kind]
    rfl
  rw [owningClass?, h.kind, hparent, habove]
  rfl

theorem ownExport?_eq : m.ownExport? = none := by
  have hparent := h.parent_kind
  unfold ownExport? exportName?
  cases hm : m.parent? with
  | none => rfl
  | some parent =>
    rw [hm, Option.map_some, Option.some.injEq] at hparent
    simp [hparent]

theorem isDeclared : m.isDeclared = true := by
  rw [Site.isDeclared, h.kind]
  rfl

theorem topName?_eq : m.topName? = none := by
  rw [topName?, if_neg]
  intro htop
  have howner := owningClass?_of_isTopLevel htop
  rw [h.owningClass?_eq] at howner
  cases howner

end Site.IsMethodOf

theorem Site.owningClass?_of_isClass {c : Site} (h : c.kind.isClass = true) : c.owningClass? = none := by
  have hkind : c.kind ≠ .methodDefinition := by
    intro hmethod
    rw [hmethod] at h
    cases h
  rw [owningClass?, if_neg (by simp [hkind])]

/-- What is exported where it stands is the default, or keeps its name. -/
theorem Site.ownExport?_cases {s : Site} {name exported : String} (h : s.inferredName? = some name)
    (hexported : s.ownExport? = some exported) : exported = "default" ∨ exported = name := by
  rw [ownExport?, h] at hexported
  unfold exportName? at hexported
  cases hparent : s.parent? with
  | none => simp [hparent] at hexported
  | some parent =>
    simp only [hparent, Option.bind_eq_bind, Option.bind_some] at hexported
    split at hexported
    · split at hexported
      · exact .inl (Option.some.inj hexported).symm
      · exact .inr (Option.some.inj hexported).symm
    · split at hexported
      · split at hexported
        · exact .inr (Option.some.inj hexported).symm
        · cases hexported
      · cases hexported
    · cases hexported

/-- The local name of the declaration holds no mark. -/
def Site.IsPlain (s : Site) : Prop :=
  ∀ made, '#' ∉ (s.localName made).toList

/-- A declaration at the top level has its own name as its local name, or is the default. -/
theorem Site.isPlain_of_topName? {s : Site} {name : String} (h : s.topName? = some name)
    (hname : '#' ∉ name.toList) : s.IsPlain := by
  have htop : s.isTopLevel = true := by
    by_contra htop
    rw [topName?, if_neg htop] at h
    cases h
  rw [topName?, if_pos htop] at h
  intro made
  have hshown : s.shownName made = name := by rw [shownName, h, Option.getD_some]
  rw [localName, hshown, owningClass?_of_isTopLevel htop]
  cases hown : s.ownExport? with
  | none => exact hname
  | some exported =>
    simp only [Walk.localIdOf]
    split
    · exact hname
    · rcases ownExport?_cases h hown with rfl | rfl
      · decide
      · exact hname

/-! ## Entries and their declarations -/

theorem forall₂_getElem? {α β : Type} {R : α → β → Prop} {as : List α} {bs : List β}
    (h : List.Forall₂ R as bs) {j : Nat} {a : α} (ha : as[j]? = some a) : ∃ b, bs[j]? = some b ∧ R a b := by
  induction h generalizing j with
  | nil => cases ha
  | cons hab _ ih =>
    cases j with
    | zero =>
      rw [List.getElem?_cons_zero, Option.some.injEq] at ha
      exact ⟨_, rfl, ha ▸ hab⟩
    | succ j => exact ih ha

theorem localNamesFrom_getElem? {sites : List Site} (made : Nat) {j : Nat} {s : Site}
    (h : sites[j]? = some s) : ∃ made', (localNamesFrom made sites)[j]? = some (s.localName made') := by
  induction sites generalizing made j with
  | nil => cases h
  | cons t sites ih =>
    cases j with
    | zero =>
      rw [List.getElem?_cons_zero, Option.some.injEq] at h
      exact ⟨made, by rw [h]; rfl⟩
    | succ j => exact ih _ h

namespace Walk

theorem declaredIds_eq (w : Walk) : w.declaredIds = w.declarations.map (·.record.id) := by
  rw [declaredIds, declarations, labels, List.filter_map, List.filter_map, List.map_map, List.map_map]
  rfl

/-- The place of an entry among those of declarations is that of its site and of the tag in its id. -/
theorem Recorded.tagged {path : String} {root : Tree} {sites : List Site} {w : Walk}
    (h : Recorded sites w) (hlabels : Labelled path root sites w) {e : Entry} (he : e ∈ w.entries)
    {i : Nat} (hsite : e.site = some i) : ∃ (j : Nat) (s : Site) (made n : Nat),
      (sites.filter (·.isDeclared))[j]? = some s ∧ e.Declares s ∧
      (tags (localNames sites))[j]? = some (s.localName made, n) ∧
      e.record.id = idOf path (s.localName made, n) := by
  have hmem : e.outline ∈ w.declarations :=
    List.mem_filter.mpr ⟨List.mem_map_of_mem he, by simp [Entry.outline, hsite]⟩
  obtain ⟨j, hj⟩ := List.getElem?_of_mem hmem
  obtain ⟨s, hs, hdeclares⟩ := forall₂_getElem? h.declared hj
  obtain ⟨made, hmade⟩ := localNamesFrom_getElem? 0 hs
  have hid : ((tags (localNames sites)).map (idOf path))[j]? = some e.record.id := by
    rw [← hlabels.declared, declaredIds_eq, List.getElem?_map, hj]
    rfl
  rw [List.getElem?_map] at hid
  obtain ⟨⟨name, n⟩, htag, hid⟩ := Option.map_eq_some_iff.mp hid
  have hname : (localNames sites)[j]? = some name := by
    rw [← tags_map_fst (localNames sites), List.getElem?_map, htag]
    rfl
  rw [localNames, hmade, Option.some.injEq] at hname
  subst hname
  exact ⟨j, s, made, n, hs, hdeclares.of_eq rfl rfl rfl rfl rfl, htag, hid.symm⟩

theorem Recorded.site_eq_of_id {path : String} {root : Tree} {sites : List Site} {w : Walk}
    (h : Recorded sites w) (hlabels : Labelled path root sites w) {e e' : Entry} (he : e ∈ w.entries)
    (he' : e' ∈ w.entries) {i i' : Nat} (hsite : e.site = some i) (hsite' : e'.site = some i')
    (hplain : ∀ s ∈ sites.filter (·.isDeclared), e.Declares s → s.IsPlain)
    (hplain' : ∀ s ∈ sites.filter (·.isDeclared), e'.Declares s → s.IsPlain)
    (hid : e.record.id = e'.record.id) : e.site = e'.site := by
  obtain ⟨j, s, made, n, hj, hs, htag, heid⟩ := h.tagged hlabels he hsite
  obtain ⟨j', s', made', n', hj', hs', htag', heid'⟩ := h.tagged hlabels he' hsite'
  have hname := hplain s (List.mem_of_getElem? hj) hs made
  have hname' := hplain' s' (List.mem_of_getElem? hj') hs' made'
  have hmarked : ∀ (name : String) (k : Nat), '#' ∈ (s!"{name}#{k}").toList := by
    intro name k
    rw [toList_numbered]
    simp
  -- neither of the names can spell the other one with its mark, so the tags agree
  have htags : (s.localName made, n) = (s'.localName made', n') := by
    rw [heid, heid'] at hid
    rcases eq_or_spelled_of_idOf_eq hid with heq | ⟨-, -, hspelled⟩ | ⟨-, -, hspelled⟩
    · exact heq
    · rw [show s.localName made = _ from hspelled] at hname
      exact absurd (hmarked _ _) hname
    · rw [show s'.localName made' = _ from hspelled] at hname'
      exact absurd (hmarked _ _) hname'
  rw [← htags] at htag'
  have hplace : j = j' := by
    obtain ⟨hlt, hget⟩ := List.getElem?_eq_some_iff.mp htag
    obtain ⟨hlt', hget'⟩ := List.getElem?_eq_some_iff.mp htag'
    exact (tags_nodup (localNames sites)).getElem_inj_iff.mp (hget.trans hget'.symm)
  rw [hplace, hj', Option.some.injEq] at hj
  rw [hs.site, hs'.site, hj]

/-- A number tells the declaration of an entry. -/
theorem walkTo_declares {path : String} {root : Tree} {n : Nat} {e : Entry}
    (he : e ∈ (root.walkTo path n).entries) {s : Site} (hs : s ∈ root.sites) (hsite : e.site = some s.index) :
    e.Declares s := by
  have hsplit := (List.take_append_drop n root.sites).symm
  have hrecorded : Recorded _ (root.walkTo path n) := (visited_progressed path hsplit).recorded
  obtain ⟨j, s', made, k, hj, hdeclares, -, -⟩ := hrecorded.tagged (walkTo_labelled path root n) he hsite
  have hs' : s' ∈ root.sites := List.mem_of_mem_take (List.mem_filter.mp (List.mem_of_getElem? hj)).1
  have hindex : s.index = s'.index := Option.some.inj (hsite.symm.trans hdeclares.site)
  rw [site_eq_of_index hs hs' hindex]
  exact hdeclares

theorem visit_of_isDeclared {w : Walk} {s : Site} (h : s.isDeclared = true) : w.visit s = w.register s := by
  have hstep := visit_step w s
  generalize w.visit s = w' at hstep
  cases hstep with
  | declare => rfl
  | skip hs => rw [h] at hs; cases hs
  | load _ _ hs => rw [h] at hs; cases hs
  | passOn _ hs => rw [h] at hs; cases hs
  | ask hs => rw [h] at hs; cases hs
  | call _ _ hs => rw [h] at hs; cases hs

theorem foldl_visit_outline (sites : List Site) {slot : Nat} :
    ∀ {w : Walk} {e : Entry}, w.entries[slot]? = some e →
      ∃ e', (sites.foldl visit w).entries[slot]? = some e' ∧ e'.outline = e.outline := by
  induction sites with
  | nil => exact fun he => ⟨_, he, rfl⟩
  | cons s sites ih =>
    intro w e he
    obtain ⟨added, houtlines, -⟩ := (visit_step w s).outlines
    have hslot := congrArg (·[slot]?) houtlines
    simp only [List.getElem?_map] at hslot
    rw [List.getElem?_append_left (List.getElem?_eq_some_iff.mp he).1, he, Option.map_some] at hslot
    obtain ⟨next, hnext, houtline⟩ := Option.map_eq_some_iff.mp hslot
    obtain ⟨e', he', houtline'⟩ := ih hnext
    exact ⟨e', he', houtline'.trans houtline⟩

/-- The entry that a declaration got can only have become shown. -/
theorem visited_entryFor (path : String) {root : Tree} {s : Site} (hs : s ∈ root.sites)
    (hdeclared : s.isDeclared = true) : ∃ (slot : Nat) (e : Entry),
      (root.sites.foldl visit (start path root)).entries[slot]? = some e ∧
        e.outline = ((root.walkTo path s.index).entryFor s).outline := by
  have hnew : ((root.walkTo path s.index).register s).entries[(root.walkTo path s.index).entries.length]? =
      some ((root.walkTo path s.index).entryFor s) := by
    rw [register_eq, List.getElem?_append_right (Nat.le_refl _), Nat.sub_self]
    rfl
  obtain ⟨e, he, houtline⟩ := foldl_visit_outline (root.sites.drop (s.index + 1)) hnew
  refine ⟨(root.walkTo path s.index).entries.length, e, ?_, houtline⟩
  rw [sites_split hs, List.foldl_append, List.foldl_cons, visit_of_isDeclared hdeclared]
  exact he

/-! ## A method when it is recorded -/

def inPlaceName? (c : Site) (method : String) : Option String :=
  if c.exportsInPlace then (c.tree.child? .name).map fun name => s!"{name.text}.{method}" else none

theorem exportWithClass_exportedAs {c : Site} {r owner : FunctionRecord} (hr : r.exportedAs = none)
    (howner : owner.exported = c.ownExport?.isSome) :
    (exportWithClass r ((c.tree.child? .name).map (·.text)) owner).exportedAs =
      inPlaceName? c r.displayName := by
  unfold exportWithClass inPlaceName? Site.exportsInPlace
  cases c.tree.child? .name with
  | none => simpa using hr
  | some name =>
    simp only [Option.map_some, howner, Option.any_some]
    split
    · rfl
    · exact hr

theorem exportWithClass_displayName (r : FunctionRecord) (className : Option String)
    (owner : FunctionRecord) : (exportWithClass r className owner).displayName = r.displayName := by
  unfold exportWithClass
  split
  · split <;> rfl
  · rfl

theorem entryFor_displayName (w : Walk) {s : Site} {name : String} (h : s.inferredName? = some name) :
    (w.entryFor s).record.displayName = name := by
  have hplain : (w.recordFor s).displayName = name := by
    unfold recordFor
    rw [h]
    cases s.ownExport? <;> rfl
  unfold entryFor
  rcases s.owningClass? with _ | ⟨className, index⟩
  · exact hplain
  · simp only
    cases w.entryAt? index with
    | none => exact hplain
    | some owner => exact (exportWithClass_displayName _ _ _).trans hplain

/-- The class around a method has its entry when the method is visited. -/
theorem walkTo_entryAt? (path : String) {root : Tree} {c m : Site} (hc : c ∈ root.sites)
    (hclass : c.kind.isClass = true) (hm : m ∈ root.sites) (hmethod : m.IsMethodOf c) :
    ∃ owner, (root.walkTo path m.index).entryAt? c.index = some owner ∧ owner.Declares c := by
  have hsplit := sites_split hm
  have hrecorded : Recorded _ (root.walkTo path m.index) := (visited_progressed path hsplit).recorded
  have hbefore : c ∈ root.sites.take m.index := by
    obtain ⟨body, rest, habove, -⟩ := hmethod.around
    obtain ⟨s, hs, heq⟩ := above_visited hsplit (p := (c.index, c.tree)) (by simp [habove])
    have hindex : c.index = s.index := (congrArg Prod.fst heq).symm
    rw [site_eq_of_index hc (List.mem_of_mem_take hs) hindex]
    exact hs
  obtain ⟨e, he, hdeclares⟩ := hrecorded.entry hbefore (by simp [Site.isDeclared, hclass])
  have hsome : ((root.walkTo path m.index).entryAt? c.index).isSome = true := by
    rw [entryAt?, List.find?_isSome]
    exact ⟨e, he, by simp [hdeclares.site]⟩
  obtain ⟨owner, howner⟩ := Option.isSome_iff_exists.mp hsome
  have hsite := List.find?_some howner
  refine ⟨owner, howner, walkTo_declares (List.mem_of_find?_eq_some howner) hc (by simpa using hsite)⟩

/-- The entries of a class do not change their ids while its methods are visited. -/
theorem visited_owner_id (path : String) {root : Tree} {m : Site} (hm : m ∈ root.sites) {i : Nat}
    {owner owner' : Entry} (howner : (root.walkTo path m.index).entryAt? i = some owner)
    (howner' : owner' ∈ (root.sites.foldl visit (start path root)).entries) (hsite : owner'.site = some i) :
    owner'.record.id = owner.record.id := by
  have hfound : owner.site = some i := by simpa using List.find?_some howner
  obtain ⟨slot, hslot⟩ := List.getElem?_of_mem (List.mem_of_find?_eq_some howner)
  obtain ⟨kept, hkept, houtline⟩ := foldl_visit_outline (m :: root.sites.drop (m.index + 1)) hslot
  have hwalk : (m :: root.sites.drop (m.index + 1)).foldl visit (root.walkTo path m.index) =
      root.sites.foldl visit (start path root) := by
    rw [Tree.walkTo, ← List.foldl_append, ← sites_split hm]
  rw [hwalk] at hkept
  have hkeptSite : kept.site = some i := (congrArg Entry.site houtline).trans hfound
  have hdistinct := (visited_progressed path (List.append_nil root.sites).symm).recorded.distinct
  rw [hdistinct.entry_eq howner' (List.mem_of_getElem? hkept) hsite hkeptSite]
  exact congrArg (·.record.id) houtline

/-- The entry of a method, and that of its class, after all visits. -/
theorem visited_method (path : String) {root : Tree} {c m : Site} {name : String} (hc : c ∈ root.sites)
    (hclass : c.kind.isClass = true) (hname : c.inferredName? = some name) (hm : m ∈ root.sites)
    (hmethod : m.IsMethodOf c) : ∃ (slot : Nat) (e owner : Entry),
      (root.sites.foldl visit (start path root)).entries[slot]? = some e ∧ e.site = some m.index ∧
      e.record.exportedAs = inPlaceName? c e.record.displayName ∧ e.ownerId = some owner.record.id ∧
      owner ∈ (root.sites.foldl visit (start path root)).entries ∧ owner.site = some c.index ∧
      owner.record.displayName = name := by
  obtain ⟨found, hfound, hdeclares⟩ := walkTo_entryAt? path hc hclass hm hmethod
  obtain ⟨slot, e, he, houtline⟩ := visited_entryFor path hm hmethod.isDeclared
  obtain ⟨_, owner, howner, hshape⟩ := visited_entryFor path hc (by simp [Site.isDeclared, hclass])
  have hentry : ((root.walkTo path m.index).entryFor m).ownerId = some found.record.id ∧
      ((root.walkTo path m.index).entryFor m).record = exportWithClass
        ((root.walkTo path m.index).recordFor m) ((c.tree.child? .name).map (·.text)) found.record := by
    unfold entryFor
    rw [hmethod.owningClass?_eq]
    simp only [hfound, and_self]
  have hplain : ((root.walkTo path m.index).recordFor m).exportedAs = none := by
    unfold recordFor
    rw [hmethod.ownExport?_eq]
  have hexported : found.record.exported = c.ownExport?.isSome :=
    (hdeclares.plain (Site.owningClass?_of_isClass hclass)).2.2
  have hsite : owner.site = some c.index := (congrArg Entry.site hshape).trans (entryFor_site _ c)
  have hmem := List.mem_of_getElem? howner
  refine ⟨slot, e, owner, he, (congrArg Entry.site houtline).trans (entryFor_site _ m), ?_, ?_, hmem,
    hsite, (congrArg (·.record.displayName) hshape).trans (entryFor_displayName _ hname)⟩
  · have has : e.record.exportedAs = ((root.walkTo path m.index).entryFor m).record.exportedAs :=
      congrArg (·.record.exportedAs) houtline
    have hdisplay : e.record.displayName = ((root.walkTo path m.index).entryFor m).record.displayName :=
      congrArg (·.record.displayName) houtline
    rw [has, hdisplay, hentry.2, exportWithClass_displayName, exportWithClass_exportedAs hplain hexported]
  · rw [visited_owner_id path hm hfound hmem hsite, ← hentry.1]
    exact (congrArg Entry.ownerId houtline :)

end Walk

/-! ## A method when exports are settled -/

/-- What no request for an export changes in an entry. -/
def Entry.face (e : Entry) : Entry :=
  { e with record := { e.record with exported := false, exportedAs := none, included := false } }

namespace Walk

theorem Settling.face_mem {request : String × String} {w w' : Walk} (h : Settling request w w')
    {e' : Entry} (he' : e' ∈ w'.entries) : ∃ e ∈ w.entries, e.face = e'.face := by
  cases h with
  | skip => exact ⟨e', he', rfl⟩
  | passOn => exact ⟨e', he', rfl⟩
  | mark target =>
    obtain ⟨e, he, rfl⟩ := List.mem_map.mp he'
    refine ⟨e, he, ?_⟩
    split
    · rfl
    · split <;> rfl

/-- The class with the number can be told by its id among what a request can find, and the method
with the number cannot be found. -/
structure Hands (w : Walk) (c m : Nat) (id name : String) : Prop where
  found : ∀ e ∈ w.entries, e.topName.isSome = true → e.record.id = id → e.site = some c
  shown : ∀ e ∈ w.entries, e.site = some c → e.record.id = id ∧ e.record.displayName = name
  hidden : ∀ e ∈ w.entries, e.site = some m → e.topName = none

section
variable {w w' : Walk} {c m : Nat} {id name : String} {request : String × String}

theorem Hands.settle (h : Hands w c m id name) (hstep : Settling request w w') :
    Hands w' c m id name := by
  have hold : ∀ e' ∈ w'.entries, ∃ e ∈ w.entries, e.site = e'.site ∧ e.topName = e'.topName ∧
      e.record.id = e'.record.id ∧ e.record.displayName = e'.record.displayName := by
    intro e' he'
    obtain ⟨e, he, hface⟩ := hstep.face_mem he'
    exact ⟨e, he, (congrArg Entry.site hface :), (congrArg Entry.topName hface :),
      (congrArg (·.record.id) hface :), (congrArg (·.record.displayName) hface :)⟩
  constructor
  · intro e' he' htop hid
    obtain ⟨e, he, hsite, htop', hid', -⟩ := hold e' he'
    rw [← hsite]
    exact h.found e he (htop' ▸ htop) (hid'.trans hid)
  · intro e' he' hsite'
    obtain ⟨e, he, hsite, -, hid, hdisplay⟩ := hold e' he'
    rw [← hid, ← hdisplay]
    exact h.shown e he (hsite.trans hsite')
  · intro e' he' hsite'
    obtain ⟨e, he, hsite, htop, -⟩ := hold e' he'
    rw [← htop]
    exact h.hidden e he (hsite.trans hsite')

/-- A request hands the export of the class on to the method if it finds the class. -/
theorem Settling.handed (h : Hands w c m id name) (hstep : Settling request w w') {slot : Nat} {e : Entry}
    (he : w.entries[slot]? = some e) (hsite : e.site = some m) (howner : e.ownerId = some id) :
    ∃ e', w'.entries[slot]? = some e' ∧ e'.face = e.face ∧ e'.record.exportedAs =
      e.record.exportedAs.or
        (if w.named? request.1 == some c then some s!"{name}.{e.record.displayName}" else none) := by
  have hkeep : w.named? request.1 = none → e.record.exportedAs = e.record.exportedAs.or
      (if w.named? request.1 == some c then some s!"{name}.{e.record.displayName}" else none) := by
    intro hnone
    simp [hnone]
  cases hstep with
  | skip hnone => exact ⟨e, he, rfl, hkeep (by simp [named?, hnone])⟩
  | passOn b hnone => exact ⟨e, he, rfl, hkeep (by simp [named?, hnone])⟩
  | mark target htarget =>
    have hmem := List.mem_of_find?_eq_some htarget
    have htop : target.topName = some request.1 := by simpa using List.find?_some htarget
    have hnamed : w.named? request.1 = target.site := by rw [named?, htarget, Option.bind_some]
    have hother : ¬ (e.site == target.site) = true := by
      intro hself
      rw [beq_iff_eq, hsite] at hself
      rw [h.hidden target hmem hself.symm] at htop
      cases htop
    refine ⟨_, by rw [exportEntry, List.getElem?_map, he, Option.map_some, if_neg hother], ?_⟩
    rw [hnamed]
    by_cases hid : target.record.id = id
    · have hclass := h.found target hmem (by simp [htop]) hid
      rw [if_pos (by simp [hid, howner]), if_pos (by simp [hclass])]
      refine ⟨rfl, ?_⟩
      rw [(h.shown target hmem hclass).2]
      cases e.record.exportedAs <;> rfl
    · have hno : target.site ≠ some c := fun hc => hid (h.shown target hmem hc).1
      rw [if_neg (by simpa [howner] using fun heq => hid heq.symm), if_neg (by simpa using hno),
        Option.or_none]
      exact ⟨rfl, rfl⟩

theorem settled_handed (requests : List (String × String)) {slot : Nat} :
    ∀ {w : Walk} {e : Entry}, Hands w c m id name → w.entries[slot]? = some e → e.site = some m →
      e.ownerId = some id → ∃ e', (requests.foldl resolveExport w).entries[slot]? = some e' ∧
        e'.face = e.face ∧ e'.record.exportedAs = e.record.exportedAs.or
          (if requests.any (fun q => w.named? q.1 == some c) then
            some s!"{name}.{e.record.displayName}" else none) := by
  induction requests with
  | nil => exact fun _ he _ _ => ⟨_, he, rfl, by simp⟩
  | cons request requests ih =>
    intro w e h he hsite howner
    have hstep := resolveExport_settling w request
    obtain ⟨next, hnext, hface, has⟩ := hstep.handed h he hsite howner
    obtain ⟨last, hlast, hface', has'⟩ := ih (h.settle hstep) hnext
      ((congrArg Entry.site hface).trans hsite) ((congrArg Entry.ownerId hface).trans howner)
    refine ⟨last, hlast, hface'.trans hface, ?_⟩
    have hdisplay : next.record.displayName = e.record.displayName :=
      congrArg (·.record.displayName) hface
    simp only [hstep.named?_eq] at has'
    rw [has', has, hdisplay, Option.or_assoc, List.any_cons]
    congr 1
    cases w.named? request.1 == some c with
    | true => rfl
    | false => rfl

end

/-! ## Whole walks -/

/-- What can be found after all visits by the id of a class at the top level is the class. -/
theorem visited_hands (path : String) {root : Tree} {c m : Site} {name : String} (hc : c ∈ root.sites)
    (htop : c.isTopLevel = true) (hname : c.inferredName? = some name) (hm : m ∈ root.sites)
    (hmethod : m.IsMethodOf c)
    (hplain : ∀ s ∈ root.sites.filter (·.isDeclared), ∀ top ∈ s.topName?, '#' ∉ top.toList) {owner : Entry}
    (howner : owner ∈ (root.sites.foldl visit (start path root)).entries)
    (hsite : owner.site = some c.index) (hshown : owner.record.displayName = name) :
    Hands (root.sites.foldl visit (start path root)) c.index m.index owner.record.id name := by
  have hrecorded := (visited_progressed path (List.append_nil root.sites).symm).recorded
  have hlabelled := walkTo_labelled path root root.sites.length
  rw [List.take_length] at hlabelled
  rw [← walkTo_length] at howner hrecorded ⊢
  have hplainAt : ∀ e : Entry, e.topName.isSome = true → ∀ s ∈ root.sites.filter (·.isDeclared),
      e.Declares s → s.IsPlain := by
    intro e he s hs hdeclares
    obtain ⟨top, htop⟩ := Option.isSome_iff_exists.mp he
    have hs' : s.topName? = some top := hdeclares.topName.symm.trans htop
    exact Site.isPlain_of_topName? hs' (hplain s hs top hs')
  have hnamed : owner.topName.isSome = true := by
    rw [(walkTo_declares howner hc hsite).topName, Site.topName?, if_pos htop, hname]
    rfl
  constructor
  · intro e he hetop hid
    cases hesite : e.site with
    | none =>
      rw [(hrecorded.others e he hesite).topName] at hetop
      cases hetop
    | some i =>
      rw [← hesite, ← hsite]
      exact hrecorded.site_eq_of_id hlabelled he howner hesite hsite (hplainAt e hetop)
        (hplainAt owner hnamed) hid
  · intro e he hesite
    rw [hrecorded.distinct.entry_eq he howner hesite hsite]
    exact ⟨rfl, hshown⟩
  · intro e he hesite
    rw [(walkTo_declares he hm hesite).topName, hmethod.topName?_eq]

theorem inPlaceName?_isSome (c : Site) (method : String) :
    (inPlaceName? c method).isSome = c.exportsInPlace := by
  unfold inPlaceName? Site.exportsInPlace
  cases c.tree.child? .name with
  | none => simp
  | some name =>
    split
    · next h => simpa using h.symm
    · next h => simpa using h

end Walk

/-- Two ways lead from the export of a class to its methods: an `export` in front of it, which needs a
name in the class itself, and a clause that names it. Identifiers hold no mark, so neither do the names
of declarations at the top level. -/
theorem method_exported_iff (path : String) {root : Tree} {c m : Site} {name : String}
    (hc : c ∈ root.sites) (hclass : c.kind.isClass = true) (htop : c.isTopLevel = true)
    (hname : c.inferredName? = some name) (hm : m ∈ root.sites) (hmethod : m.IsMethodOf c)
    (hplain : ∀ s ∈ root.sites.filter (·.isDeclared), ∀ top ∈ s.topName?, '#' ∉ top.toList) :
    ∃ slot e, (walkModule path root).EntryOf m slot e ∧
      e.record.exportedAs = (Walk.inPlaceName? c e.record.displayName).or
        (if root.exportsByName c then some s!"{name}.{e.record.displayName}" else none) ∧
      (e.record.included = true ↔ c.exportsInPlace = true ∨ root.exportsByName c = true ∨
        root.ChargedIn path root.sites m.index) := by
  obtain ⟨slot, e, owner, he, hsite, has, howner, hmem, hcsite, hshown⟩ :=
    Walk.visited_method path hc hclass hname hm hmethod
  have hands := Walk.visited_hands path hc htop hname hm hmethod hplain hmem hcsite hshown
  obtain ⟨last, hlast, hface, has'⟩ := Walk.settled_handed root.requests hands he hsite howner
  have hrecorded := (Walk.visited_progressed path (List.append_nil root.sites).symm).recorded
  have hwalk : (walkModule path root).entries[slot]? = some last := by
    rw [walkModule, Walk.finish, Walk.visited_pendingExports]
    exact hlast
  have hsite' : last.site = some m.index := (congrArg Entry.site hface).trans hsite
  have hdisplay : last.record.displayName = e.record.displayName :=
    congrArg (·.record.displayName) hface
  simp only [hrecorded.named?_eq] at has'
  have hexported : last.record.exportedAs = (Walk.inPlaceName? c last.record.displayName).or
      (if root.exportsByName c then some s!"{name}.{last.record.displayName}" else none) := by
    rw [has', has, hdisplay]
    rfl
  refine ⟨slot, last, Walk.entryOf_of_site path hwalk hsite', hexported, ?_⟩
  rw [walkModule_included path root last (List.mem_of_getElem? hwalk) m.index hsite', hexported,
    Option.isSome_or, Bool.or_eq_true, Walk.inPlaceName?_isSome, or_assoc]
  cases root.exportsByName c <;> simp

/-! ## A class in a variable -/

open Assembly (leaf phrase)

def soleMethod : Tree :=
  phrase .methodDefinition [leaf .propertyIdentifier "m" (some .name)] none

def soleMethodBody : Tree :=
  phrase .classBody [soleMethod] (some .body)

def namelessClass : Tree :=
  phrase .classExpression [soleMethodBody] (some .value)

def classDeclarator : Tree :=
  phrase .variableDeclarator [leaf .identifier "A" (some .name), namelessClass] none

def classInVariable : Tree :=
  phrase .lexicalDeclaration [classDeclarator] none

def exportedByClause : Tree :=
  phrase .program [classInVariable, phrase .exportStatement [leaf .token "export" none,
    phrase .exportClause [phrase .exportSpecifier [leaf .identifier "A" (some .name)] none] none] none] none

def namelessClassSite : Site :=
  ⟨4, namelessClass, [(2, classDeclarator), (1, classInVariable), (0, exportedByClause)]⟩

def soleMethodSite : Site :=
  ⟨6, soleMethod, (5, soleMethodBody) :: (4, namelessClass) :: namelessClassSite.above⟩

theorem method_exported_by_clause :
    namelessClassSite ∈ exportedByClause.sites ∧ soleMethodSite ∈ exportedByClause.sites ∧
    soleMethodSite.IsMethodOf namelessClassSite ∧ exportedByClause.exportsByName namelessClassSite = true ∧
    ∃ slot e, (walkModule "a.ts" exportedByClause).EntryOf soleMethodSite slot e ∧
      e.record.exportedAs = some s!"A.{e.record.displayName}" ∧ e.record.included = true := by
  have hc : namelessClassSite ∈ exportedByClause.sites := List.mem_of_getElem? (i := 4) rfl
  have hm : soleMethodSite ∈ exportedByClause.sites := List.mem_of_getElem? (i := 6) rfl
  have hmethod : soleMethodSite.IsMethodOf namelessClassSite := ⟨rfl, _, _, rfl, rfl⟩
  have hclause : exportedByClause.exportsByName namelessClassSite = true := by decide +kernel
  obtain ⟨slot, e, hentry, has, hincluded⟩ := method_exported_iff "a.ts" hc rfl (by decide)
    (show namelessClassSite.inferredName? = some "A" by decide) hm hmethod (by decide +kernel)
  refine ⟨hc, hm, hmethod, hclause, slot, e, hentry, ?_, hincluded.mpr (.inr (.inl hclause))⟩
  rw [has, if_pos hclause]
  rfl

def exportedInFront : Tree :=
  phrase .program [phrase .exportStatement [leaf .token "export" none, classInVariable] none] none

/-- The methods of a class in a variable are exported by a clause, but not by an `export` in front of
the variable. -/
theorem methods_of_class_in_variable :
    ((walkModule "a.ts" exportedInFront).analysis .typescript "").functions.map
      (fun r => (r.id, r.exportedAs, r.included)) =
        [("a.ts::A", some "A", true), ("a.ts::m", none, false)] ∧
    ((walkModule "a.ts" exportedByClause).analysis .typescript "").functions.map
      (fun r => (r.id, r.exportedAs, r.included)) =
        [("a.ts::A", some "A", true), ("a.ts::m", some "A.m", true)] := by
  decide +kernel

end CodeAtlas.Script
