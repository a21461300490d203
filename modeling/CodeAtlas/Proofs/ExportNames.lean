import CodeAtlas.Proofs.CallBindings

/-!
# The names of an exported declaration

A module can export a declaration under several names: by an `export` in front of it and by clauses
anywhere in the module. Its record keeps the first of them (`walkModule_exported`).
-/

namespace CodeAtlas.Script

def Tree.declaredAs? (root : Tree) (name : String) : Option Site :=
  root.sites.find? fun s => s.isDeclared && s.topName? == some name

def Tree.requests (root : Tree) : List (String × String) :=
  root.sites.flatMap Site.requests

/-- All names under which a module exports a declaration, in the order in which they are known. -/
def Tree.exportNames (root : Tree) (s : Site) : List String :=
  s.ownExport?.toList ++
    (root.requests.filter fun q => (root.declaredAs? q.1).map (·.index) == some s.index).map (·.2)

namespace Walk

/-! ## Requests -/

theorem Step.pendingExports_eq {s : Site} {w w' : Walk} (h : Step s w w') :
    w'.pendingExports = w.pendingExports ++ s.requests := by
  cases h with
  | skip _ hr => rw [hr, List.append_nil]
  | load _ _ _ _ _ hr => rw [hr, List.append_nil]; rfl
  | passOn _ _ _ hr => rw [hr, List.append_nil]
  | ask => rfl
  | declare _ hr => rw [hr, List.append_nil]; rfl
  | call spec b _ hr =>
    obtain ⟨entries, calls, heq⟩ := addCall_eq w s spec b
    rw [heq, hr, List.append_nil]

theorem visited_pendingExports (path : String) (root : Tree) :
    (root.sites.foldl visit (start path root)).pendingExports = root.requests := by
  refine walk_induction (P := fun pre w => w.pendingExports = pre.flatMap Site.requests) ?_ ?_
    (List.append_nil _).symm
  · exact start_induction (P := fun w => w.pendingExports = []) rfl fun _ _ _ _ _ h => h
  · intro pre s post v v' _ hstep h
    rw [hstep.pendingExports_eq, h, List.flatMap_append, List.flatMap_singleton]

/-! ## Declarations by name -/

def named? (w : Walk) (name : String) : Option Nat :=
  (w.entries.find? (·.topName == some name)).bind (·.site)

theorem find?_declares {es : List Entry} {ss : List Site} (h : List.Forall₂ Entry.Declares es ss)
    (name : String) : (es.find? (·.topName == some name)).bind (·.site) =
      (ss.find? (·.topName? == some name)).map (·.index) := by
  induction h with
  | nil => rfl
  | cons hd _ ih =>
    rename_i e s es ss _
    rw [List.find?_cons, List.find?_cons, hd.topName]
    cases hname : s.topName? == some name with
    | true => exact hd.site
    | false => exact ih

theorem Recorded.named?_eq {sites : List Site} {w : Walk} (h : Recorded sites w) (name : String) :
    w.named? name =
      (sites.find? fun s => s.isDeclared && s.topName? == some name).map (·.index) := by
  have houtline : w.named? name =
      ((w.entries.map Entry.outline).find? (·.topName == some name)).bind (·.site) := by
    have hcomp : ((fun e : Entry => e.topName == some name) ∘ Entry.outline) =
        (·.topName == some name) := rfl
    rw [List.find?_map, hcomp, named?]
    cases w.entries.find? (·.topName == some name) <;> rfl
  -- The entry of the module has no such name, so only declarations can be found.
  have hdeclared : ((w.entries.map Entry.outline).find? (·.topName == some name)) =
      w.declarations.find? (·.topName == some name) := by
    rw [declarations, ← List.head?_filter, ← List.head?_filter, List.filter_filter]
    congr 1
    refine List.filter_congr fun e he => ?_
    obtain ⟨e', he', hsite, htop, -⟩ := mem_map_outline he
    cases hs : e.site with
    | some i => simp
    | none =>
      have hnone := (h.others e' he' (hsite.trans hs)).topName
      rw [← htop, hnone]
      rfl
  rw [houtline, hdeclared, find?_declares h.declared]
  simp only [List.find?_filter, Bool.decide_and, Bool.decide_eq_true]

/-! ## One entry for each declaration -/

theorem declares_sites {es : List Entry} {ss : List Site} (h : List.Forall₂ Entry.Declares es ss) :
    es.map (·.site) = (ss.map (·.index)).map some := by
  induction h with
  | nil => rfl
  | cons hd _ ih => rw [List.map_cons, List.map_cons, List.map_cons, hd.site, ih]

def Distinct (numbers : List (Option Nat)) : Prop :=
  numbers.Pairwise fun m n => m.isSome = true → n.isSome = true → m ≠ n

theorem Recorded.distinct {root : Tree} {w : Walk} (h : Recorded root.sites w) :
    Distinct (w.entries.map (·.site)) := by
  have hnumbers : (w.declarations.map (·.site)).Nodup := by
    rw [declares_sites h.declared]
    have hsites : ((root.sites.filter (·.isDeclared)).map (·.index)).Nodup :=
      (sites_index_nodup root).sublist (List.filter_sublist.map _)
    exact hsites.map fun _ _ heq => Option.some.inj heq
  have hpairwise := List.pairwise_filter.mp (List.pairwise_map.mp hnumbers)
  exact List.pairwise_map.mpr (List.pairwise_map.mp hpairwise)

theorem Settling.sites_eq {request : String × String} {w w' : Walk} (h : Settling request w w') :
    w'.entries.map (·.site) = w.entries.map (·.site) := by
  cases h with
  | skip => rfl
  | passOn => rfl
  | mark target =>
    rw [exportEntry, List.map_map]
    refine List.map_congr_left fun e _ => ?_
    simp only [Function.comp_apply]
    split
    · rfl
    · split <;> rfl

theorem walkModule_distinct (path : String) (root : Tree) :
    Distinct ((walkModule path root).entries.map (·.site)) := by
  refine finish_induction (P := fun w => Distinct (w.entries.map (·.site))) ?_ ?_
  · exact (visited_progressed path (List.append_nil root.sites).symm).recorded.distinct
  · intro v v' request hstep h
    rw [hstep.sites_eq]
    exact h

theorem Distinct.slot_eq {numbers : List (Option Nat)} (h : Distinct numbers) {i j n : Nat}
    (hi : numbers[i]? = some (some n)) (hj : numbers[j]? = some (some n)) : i = j := by
  obtain ⟨hilt, hi⟩ := List.getElem?_eq_some_iff.mp hi
  obtain ⟨hjlt, hj⟩ := List.getElem?_eq_some_iff.mp hj
  have hne := List.pairwise_iff_getElem.mp h
  rcases Nat.lt_trichotomy i j with hlt | heq | hlt
  · exact absurd (hi.trans hj.symm) (hne i j hilt hjlt hlt (by simp [hi]) (by simp [hj]))
  · exact heq
  · exact absurd (hj.trans hi.symm) (hne j i hjlt hilt hlt (by simp [hj]) (by simp [hi]))

theorem Distinct.entry_eq {w : Walk} (h : Distinct (w.entries.map (·.site))) {e e' : Entry} {n : Nat}
    (he : e ∈ w.entries) (he' : e' ∈ w.entries) (hsite : e.site = some n) (hsite' : e'.site = some n) :
    e = e' := by
  obtain ⟨slot, hslot⟩ := List.getElem?_of_mem he
  obtain ⟨slot', hslot'⟩ := List.getElem?_of_mem he'
  have hsame : slot = slot' := h.slot_eq (n := n)
    (by rw [List.getElem?_map, hslot, Option.map_some, hsite])
    (by rw [List.getElem?_map, hslot', Option.map_some, hsite'])
  rw [hsame, hslot', Option.some.injEq] at hslot
  exact hslot.symm

/-! ## Marks -/

structure Marked (i : Nat) (names : List String) (e : Entry) : Prop where
  site : e.site = some i
  ownerId : e.ownerId = none
  exportedAs : e.record.exportedAs = names.head?
  exported : e.record.exported = !names.isEmpty

theorem Marked.markExported {i : Nat} {names : List String} {e : Entry} (h : Marked i names e)
    (name : String) : Marked i (names ++ [name]) { e with record := e.record.markExported name } where
  site := h.site
  ownerId := h.ownerId
  exportedAs := by
    show some (e.record.exportedAs.getD name) = _
    rw [h.exportedAs]
    cases names <;> rfl
  exported := by simp [FunctionRecord.markExported]

theorem exportEntry_named? (w : Walk) (target : Entry) (exported name : String) :
    (w.exportEntry target exported).named? name = w.named? name := by
  unfold named? exportEntry
  simp only [List.find?_map]
  have hcongr : ∀ f : Entry → Entry, (∀ e, (f e).topName = e.topName ∧ (f e).site = e.site) →
      ((w.entries.find? ((·.topName == some name) ∘ f)).map f).bind (·.site) =
        (w.entries.find? (·.topName == some name)).bind (·.site) := by
    intro f hf
    have hcomp : ((fun e : Entry => e.topName == some name) ∘ f) = (·.topName == some name) := by
      funext e
      simp [(hf e).1]
    rw [hcomp]
    cases w.entries.find? (·.topName == some name) with
    | none => rfl
    | some e => exact (hf e).2
  refine hcongr _ fun e => ?_
  split
  · exact ⟨rfl, rfl⟩
  · split <;> exact ⟨rfl, rfl⟩

theorem Settling.named?_eq {request : String × String} {w w' : Walk} (h : Settling request w w')
    (name : String) : w'.named? name = w.named? name := by
  cases h with
  | skip => rfl
  | mark target => exact exportEntry_named? w target request.2 name
  | passOn => rfl

/-- A request adds a name to the declaration that it finds, and to no other. -/
theorem Settling.marked {request : String × String} {w w' : Walk} (h : Settling request w w')
    {slot i : Nat} {names : List String} {e : Entry} (hslot : w.entries[slot]? = some e)
    (he : Marked i names e) : ∃ e', w'.entries[slot]? = some e' ∧
      Marked i (names ++ if w.named? request.1 == some i then [request.2] else []) e' := by
  cases h with
  | skip hnone => exact ⟨e, hslot, by simpa [named?, hnone] using he⟩
  | passOn b hnone => exact ⟨e, hslot, by simpa [named?, hnone] using he⟩
  | mark target htarget =>
    refine ⟨_, by rw [exportEntry, List.getElem?_map, hslot, Option.map_some], ?_⟩
    have hfound : w.named? request.1 = target.site := by rw [named?, htarget, Option.bind_some]
    by_cases hsite : target.site = some i
    · rw [hfound, if_pos (by simp [hsite]), if_pos (by simp [hsite, he.site])]
      exact he.markExported request.2
    · have hother : ¬ (e.site == target.site) = true := by
        rw [he.site]
        intro h
        exact hsite (beq_iff_eq.mp h).symm
      rw [hfound, if_neg (by simpa using hsite), if_neg hother, if_neg (by simp [he.ownerId]),
        List.append_nil]
      exact he

theorem settled_marked (requests : List (String × String)) {slot i : Nat} :
    ∀ {w : Walk} {names : List String} {e : Entry}, w.entries[slot]? = some e → Marked i names e →
      ∃ e', (requests.foldl resolveExport w).entries[slot]? = some e' ∧
        Marked i (names ++ (requests.filter fun q => w.named? q.1 == some i).map (·.2)) e' := by
  induction requests with
  | nil =>
    intro w names e hslot he
    exact ⟨e, hslot, by simpa using he⟩
  | cons request requests ih =>
    intro w names e hslot he
    have hstep := resolveExport_settling w request
    obtain ⟨e₁, hslot₁, he₁⟩ := hstep.marked hslot he
    obtain ⟨e₂, hslot₂, he₂⟩ := ih hslot₁ he₁
    refine ⟨e₂, hslot₂, ?_⟩
    simp only [hstep.named?_eq, List.append_assoc] at he₂
    rw [List.filter_cons]
    by_cases hfound : (w.named? request.1 == some i) = true
    · simpa [hfound] using he₂
    · simpa [hfound] using he₂

/-- The entry in the slot is that of the declaration, and no other is. -/
structure EntryOf (w : Walk) (s : Site) (slot : Nat) (e : Entry) : Prop where
  entry : w.entries[slot]? = some e
  site : e.site = some s.index
  only : ∀ (slot' : Nat) (e' : Entry), w.entries[slot']? = some e' → e'.site = some s.index →
    slot' = slot

theorem entryOf_of_site (path : String) {root : Tree} {s : Site} {slot : Nat} {e : Entry}
    (he : (walkModule path root).entries[slot]? = some e) (hsite : e.site = some s.index) :
    (walkModule path root).EntryOf s slot e := by
  refine ⟨he, hsite, fun slot' e' he' hsite' => ?_⟩
  refine (walkModule_distinct path root).slot_eq (n := s.index) ?_ ?_
  · rw [List.getElem?_map, he', Option.map_some, hsite']
  · rw [List.getElem?_map, he, Option.map_some, hsite]

/-- The record of a declaration keeps the first of its exported names. -/
theorem walkModule_exported (path : String) {root : Tree} {s : Site} (hs : s ∈ root.sites)
    (hdeclared : s.isDeclared = true) (htop : s.isTopLevel = true) :
    ∃ slot e, (walkModule path root).EntryOf s slot e ∧ Marked s.index (root.exportNames s) e := by
  have hrecorded := (visited_progressed path (List.append_nil root.sites).symm).recorded
  obtain ⟨e, he, hdeclares⟩ := hrecorded.entry hs hdeclared
  obtain ⟨hplain, has, hexported⟩ := hdeclares.plain (s.owningClass?_of_isTopLevel htop)
  have hmarked : Marked s.index s.ownExport?.toList e := by
    refine ⟨hdeclares.site, hplain, ?_, ?_⟩
    · rw [has]
      cases s.ownExport? <;> rfl
    · rw [hexported]
      cases s.ownExport? <;> rfl
  obtain ⟨slot, hslot⟩ := List.getElem?_of_mem he
  obtain ⟨e', hslot', hmarked'⟩ := settled_marked root.requests hslot hmarked
  have hwalk : (walkModule path root).entries[slot]? = some e' := by
    rw [walkModule, finish, visited_pendingExports]
    exact hslot'
  simp only [hrecorded.named?_eq] at hmarked'
  exact ⟨slot, e', entryOf_of_site path hwalk hmarked'.site, hmarked'⟩

end Walk

end CodeAtlas.Script
