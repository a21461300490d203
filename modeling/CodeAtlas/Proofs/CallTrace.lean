import CodeAtlas.Proofs.ExportNames
import CodeAtlas.Proofs.LocalNames

/-!
# Which site a call comes from

The calls of a module are those of its sites, one site after the other (`walkModule_calls`). The site
of a call by name records at most one: none where a scope around it declares the name in a recognised
form or the walk does not know the name (`callsAt_eq_nil`), and one where the walk has bound the name
when it gets there (`callsAt_of_bound`).
-/

namespace CodeAtlas.Script

/-- The walk when it comes to the site with the number. -/
def Tree.walkTo (root : Tree) (path : String) (index : Nat) : Walk :=
  (root.sites.take index).foldl Walk.visit (Walk.start path root)

def Tree.callsAt (root : Tree) (path : String) (s : Site) : List CallSite :=
  ((root.walkTo path s.index).visit s).calls.drop (root.walkTo path s.index).calls.length

structure Site.Calls (s : Site) (x : String) : Prop where
  kind : s.kind = .callExpression
  callee : ∃ t, s.tree.child? .callee = some t ∧ t.kind = .identifier ∧ t.text = x

theorem Site.calls_iff {s : Site} {x : String} : s.Calls x ↔ s.kind = .callExpression ∧
    ((s.tree.child? .callee).any fun t => t.kind == .identifier && t.text == x) = true := by
  rw [Option.any_eq_true]
  constructor
  · rintro ⟨hkind, t, hcallee, hidentifier, hname⟩
    exact ⟨hkind, t, hcallee, by simp [hidentifier, hname]⟩
  · rintro ⟨hkind, t, hcallee, h⟩
    exact ⟨hkind, t, hcallee, by simpa using h⟩

instance (s : Site) (x : String) : Decidable (s.Calls x) :=
  decidable_of_iff _ Site.calls_iff.symm

/-! ## Sites by number -/

theorem index_of_getElem? {root : Tree} {s : Site} {i : Nat} (hi : root.sites[i]? = some s) :
    s.index = i := by
  have hindex : (root.sites.map (·.index))[i]? = some s.index := by
    rw [List.getElem?_map, hi, Option.map_some]
  rw [sites_index, List.getElem?_range (List.getElem?_eq_some_iff.mp hi).1] at hindex
  exact (Option.some.inj hindex).symm

theorem sites_getElem? {root : Tree} {s : Site} (hs : s ∈ root.sites) :
    root.sites[s.index]? = some s := by
  obtain ⟨i, hi⟩ := List.getElem?_of_mem hs
  rw [index_of_getElem? hi]
  exact hi

theorem site_eq_of_index {root : Tree} {s s' : Site} (hs : s ∈ root.sites) (hs' : s' ∈ root.sites)
    (h : s.index = s'.index) : s = s' := by
  have hsame := sites_getElem? hs
  rw [h, sites_getElem? hs', Option.some.injEq] at hsame
  exact hsame.symm

theorem sites_split {root : Tree} {s : Site} (hs : s ∈ root.sites) :
    root.sites = root.sites.take s.index ++ s :: root.sites.drop (s.index + 1) := by
  obtain ⟨hlt, hget⟩ := List.getElem?_eq_some_iff.mp (sites_getElem? hs)
  have hdrop := List.drop_eq_getElem_cons hlt
  rw [hget] at hdrop
  rw [← hdrop, List.take_append_drop]

namespace Walk

theorem Step.calls_append {s : Site} {w w' : Walk} (h : Step s w w') :
    ∃ added, w'.calls = w.calls ++ added := by
  cases h with
  | call spec b =>
    obtain ⟨before, hbefore⟩ := w.beforeCall_eq s
    rw [addCall_def, charge_fst, hbefore]
    exact ⟨_, rfl⟩
  | _ => exact ⟨[], (List.append_nil _).symm⟩

end Walk

theorem walkTo_succ (path : String) {root : Tree} {s : Site} {i : Nat} (hs : root.sites[i]? = some s) :
    root.walkTo path (i + 1) = (root.walkTo path i).visit s := by
  rw [Tree.walkTo, List.take_add_one, hs, Option.toList_some, List.foldl_append]
  rfl

theorem walkTo_length (path : String) (root : Tree) :
    root.walkTo path root.sites.length = root.sites.foldl Walk.visit (Walk.start path root) := by
  rw [Tree.walkTo, List.take_length]

theorem visit_calls (path : String) (root : Tree) (s : Site) :
    ((root.walkTo path s.index).visit s).calls =
      (root.walkTo path s.index).calls ++ root.callsAt path s := by
  obtain ⟨added, hadded⟩ := (Walk.visit_step (root.walkTo path s.index) s).calls_append
  rw [Tree.callsAt, hadded, List.drop_left]

/-- What holds before the first site and is kept by each visit holds wherever the walk has come to. The
visit of a site records the calls at it. -/
theorem walkTo_induction {P : List Site → Walk → Prop} (path : String) {root : Tree}
    (hstart : P [] (Walk.start path root))
    (hstep : ∀ pre s post w w', root.sites = pre ++ s :: post → w.path = path → Walk.Step s w w' →
      w'.calls = w.calls ++ root.callsAt path s → P pre w → P (pre ++ [s]) w') (n : Nat) :
    P (root.sites.take n) (root.walkTo path n) := by
  -- on the number of visited sites; behind the last one both sides stay as they are
  induction n with
  | zero => exact hstart
  | succ n ih =>
    cases hn : root.sites[n]? with
    | none =>
      have hall : root.sites.take (n + 1) = root.sites.take n := by
        rw [List.take_add_one, hn, Option.toList_none, List.append_nil]
      rw [Tree.walkTo, hall]
      exact ih
    | some s =>
      have hindex := index_of_getElem? hn
      have hpath : (root.walkTo path n).path = path :=
        Walk.visited_path path (List.take_append_drop n root.sites).symm
      have hcalls := visit_calls path root s
      have hsplit := sites_split (List.mem_of_getElem? hn)
      rw [hindex] at hcalls hsplit
      rw [walkTo_succ path hn, List.take_add_one, hn, Option.toList_some]
      exact hstep _ s _ _ _ hsplit hpath (Walk.visit_step _ s) hcalls ih

theorem walkTo_calls (path : String) (root : Tree) (n : Nat) :
    (root.walkTo path n).calls = (root.sites.take n).flatMap (root.callsAt path) := by
  refine walkTo_induction (P := fun pre w => w.calls = pre.flatMap (root.callsAt path)) path ?_ ?_ n
  · exact Walk.start_induction (P := fun w => w.calls = []) rfl fun _ _ _ _ _ h => h
  · intro pre s post w w' _ _ _ hcalls ih
    rw [hcalls, ih, List.flatMap_append, List.flatMap_singleton]

theorem walkModule_calls (path : String) (root : Tree) :
    (walkModule path root).calls = root.sites.flatMap (root.callsAt path) := by
  refine Walk.finish_induction (P := fun w => w.calls = _) ?_ ?_
  · rw [← walkTo_length, walkTo_calls, List.take_length]
  · intro v v' request hstep h
    cases hstep <;> exact h

/-! ## Records by number -/

namespace Walk

def labels (w : Walk) : List (Option Nat × String) :=
  w.entries.map fun e => (e.site, e.record.id)

theorem mem_labels {w : Walk} {site : Option Nat} {id : String} :
    (site, id) ∈ w.labels ↔ ∃ e ∈ w.entries, e.site = site ∧ e.record.id = id := by
  simp [labels]

theorem Step.labels_mono {s : Site} {w w' : Walk} (h : Step s w w') {l : Option Nat × String}
    (hl : l ∈ w.labels) : l ∈ w'.labels := by
  obtain ⟨added, houtlines, -⟩ := h.outlines
  have hlabels : ∀ es : List Entry, es.map (fun e => (e.site, e.record.id)) =
      (es.map Entry.outline).map fun e => (e.site, e.record.id) := by
    intro es
    rw [List.map_map]
    rfl
  rw [labels, hlabels, houtlines, ← hlabels, List.map_append]
  exact List.mem_append_left _ hl

theorem Settling.labels_eq {request : String × String} {w w' : Walk} (h : Settling request w w') :
    w'.labels = w.labels := by
  cases h with
  | skip => rfl
  | passOn => rfl
  | mark target =>
    rw [labels, labels, exportEntry, List.map_map]
    refine List.map_congr_left fun e _ => ?_
    simp only [Function.comp_apply]
    split
    · rfl
    · split <;> rfl

theorem foldl_visit_labels_mono (sites : List Site) {l : Option Nat × String} :
    ∀ w : Walk, l ∈ w.labels → l ∈ (sites.foldl visit w).labels := by
  induction sites with
  | nil => intro w hl; exact hl
  | cons s sites ih =>
    intro w hl
    exact ih _ ((visit_step w s).labels_mono hl)

theorem finish_labels (w : Walk) : w.finish.labels = w.labels :=
  finish_induction (P := fun v => v.labels = w.labels) rfl fun _ _ _ hstep h => hstep.labels_eq.trans h

/-- The declaration with the number, or the module, has one record, with this id. -/
structure Identifies (w : Walk) (site : Option Nat) (id : String) : Prop where
  entry : ∃ e ∈ w.entries, e.site = site ∧ e.record.id = id
  only : ∀ e ∈ w.entries, e.site = site → e.record.id = id

theorem walkModule_moduleId (path : String) {root : Tree} {id : String}
    (h : (none, id) ∈ (walkModule path root).labels) : id = moduleId path := by
  rw [walkModule, finish_labels] at h
  obtain ⟨e, he, hsite, hid⟩ := mem_labels.mp h
  have hrecorded := (visited_progressed path (List.append_nil root.sites).symm).recorded
  have hpath := visited_path path (List.append_nil root.sites).symm
  rw [← hid, (hrecorded.others e he hsite).id, hpath]

theorem walkModule_identifies (path : String) {root : Tree} {site : Option Nat} {id : String}
    (h : (site, id) ∈ (walkModule path root).labels) : (walkModule path root).Identifies site id := by
  have hentry := mem_labels.mp h
  refine ⟨hentry, fun e he hsite => ?_⟩
  cases site with
  | none =>
    have hid := walkModule_moduleId path (mem_labels.mpr ⟨e, he, hsite, rfl⟩)
    rw [hid, walkModule_moduleId path h]
  | some i =>
    obtain ⟨e', he', hsite', rfl⟩ := hentry
    rw [(walkModule_distinct path root).entry_eq he he' hsite hsite']

end Walk

/-! ## Calls by name -/

theorem locallyBound_iff {s : Site} {x : String} : s.locallyBound x = true ↔
    ∃ t ∈ s.scopes, ∃ form : LocalForm, form.recognised = true ∧ t.Declares form x := by
  simp only [Site.locallyBound, List.any_eq_true, Tree.binds_iff]

theorem locallyBound_eq_false {s : Site} {x : String}
    (h : ∀ t ∈ s.scopes, ∀ form, t.Declares form x → form.recognised = false) :
    s.locallyBound x = false := by
  rw [← Bool.not_eq_true, locallyBound_iff]
  rintro ⟨t, ht, form, hform, hdeclares⟩
  rw [h t ht form hdeclares] at hform
  cases hform

def Walk.Reaches (w : Walk) (x : String) : Prop :=
  x ≠ "require" ∧ ∃ spec b, w.boundImport? x = some (spec, b) ∧ spec.binding ≠ .wholeModule

theorem Walk.visitNamedCall_calls (w : Walk) (s : Site) {x : String}
    (h : s.locallyBound x = true ∨ ¬ w.Reaches x) : (w.visitNamedCall s x).calls = w.calls := by
  unfold visitNamedCall
  split
  · unfold visitRequire
    split <;> rfl
  · rename_i hrequire
    split
    · rename_i spec b hbound
      split
      · rfl
      · rename_i hcond
        simp only [Bool.or_eq_true, beq_iff_eq, not_or] at hcond
        have hname : x ≠ "require" := by
          rintro rfl
          simp [hcond.1] at hrequire
        rcases h with h | h
        · exact absurd h hcond.1
        · exact absurd ⟨hname, spec, b, hbound, hcond.2⟩ h
    · rfl

section
variable {root : Tree} {s : Site} {x : String} (path : String) (hcall : s.Calls x)
include hcall

theorem visit_of_calls (w : Walk) : w.visit s = w.visitNamedCall s x := by
  obtain ⟨t, hcallee, hidentifier, hname⟩ := hcall.callee
  simp only [Walk.visit, hcall.kind, Walk.visitCall, hcallee, hidentifier, hname]

theorem callsAt_eq_nil (h : s.locallyBound x = true ∨ ¬ (root.walkTo path s.index).Reaches x) :
    root.callsAt path s = [] := by
  rw [Tree.callsAt, visit_of_calls hcall, Walk.visitNamedCall_calls _ s h, List.drop_length]

theorem callsAt_of_bound (hs : s ∈ root.sites) (hfree : s.locallyBound x = false)
    (hname : x ≠ "require") {spec : Specifier} {b : ImportBinding}
    (hbound : (root.walkTo path s.index).boundImport? x = some (spec, b))
    (hspec : spec.binding ≠ .wholeModule) :
    ∃ id, (walkModule path root).Identifies s.enclosingFunction? id ∧
      root.callsAt path s = [⟨id, x, some spec.importedName, some b.source, none⟩] := by
  have hsplit := sites_split hs
  have hrecorded : Walk.Recorded _ (root.walkTo path s.index) :=
    (Walk.visited_progressed path hsplit).recorded
  generalize hw : root.walkTo path s.index = w at hbound hrecorded
  have hvisit : w.visit s = w.addCall s spec b := by
    rw [visit_of_calls hcall, Walk.visitNamedCall, if_neg (by simp [hname]), hbound]
    simp [hfree, hspec]
  -- the function around the call was visited before it, so its record is there to be charged
  obtain ⟨e, he⟩ := Walk.beforeCall_find? (w := w) (s := s) fun i hi => by
    obtain ⟨f, hf, rfl, hfunction⟩ := enclosingFunction?_visited hsplit hi
    obtain ⟨e, he, hdeclares⟩ := hrecorded.entry hf (by simp [Site.isDeclared, hfunction])
    exact ⟨e, he, hdeclares.site⟩
  have hsite : e.site = s.enclosingFunction? := by
    have := List.find?_some he
    simpa using this
  have hlocal := Walk.boundImport?_localName hbound
  refine ⟨e.record.id, ?_, ?_⟩
  · apply Walk.walkModule_identifies
    rw [walkModule, Walk.finish_labels, hsplit, List.foldl_append, List.foldl_cons]
    apply Walk.foldl_visit_labels_mono
    show _ ∈ ((root.walkTo path s.index).visit s).labels
    rw [hw, hvisit, Walk.mem_labels, Walk.addCall_entries]
    refine ⟨_, List.mem_map_of_mem (List.mem_of_find?_eq_some he), ?_⟩
    split <;> exact ⟨hsite, rfl⟩
  · rw [Tree.callsAt, hw, hvisit, Walk.addCall_calls w s spec b he, List.drop_left, hlocal]

end

end CodeAtlas.Script
