import CodeAtlas.Proofs.Walk
import Mathlib.Data.List.Forall2

/-!
# The records of a walk

Which entries a visit adds and what it changes in those that are there: a declared site adds one
entry, a call may add the `(module)` entry, and entries that are there can only become shown. So
the entries of declarations follow the declared sites (`Recorded`).
-/

namespace CodeAtlas.Script

def Site.topName? (s : Site) : Option String :=
  if s.isTopLevel then s.inferredName? else none

def Site.ownExport? (s : Site) : Option String :=
  s.exportName? s.inferredName?

theorem Site.owningClass?_of_isTopLevel {s : Site} (h : s.isTopLevel = true) :
    s.owningClass? = none := by
  unfold owningClass?
  rw [if_neg]
  unfold parentIs parent?
  intro hc
  unfold isTopLevel at h
  cases habove : s.above with
  | nil => simp [habove] at hc
  | cons p rest =>
    simp only [habove, List.head?_cons, Option.map_some, Bool.and_eq_true, beq_iff_eq,
      Option.some.injEq] at hc
    simp [habove, hc.2, isProgram] at h

structure Entry.Declares (e : Entry) (s : Site) : Prop where
  site : e.site = some s.index
  topName : e.topName = s.topName?
  plain : s.owningClass? = none → e.ownerId = none ∧ e.record.exportedAs = s.ownExport? ∧
    e.record.exported = s.ownExport?.isSome

theorem Entry.Declares.of_eq {e e' : Entry} {s : Site} (h : e.Declares s) (hsite : e'.site = e.site)
    (htop : e'.topName = e.topName) (howner : e'.ownerId = e.ownerId)
    (has : e'.record.exportedAs = e.record.exportedAs)
    (hexported : e'.record.exported = e.record.exported) : e'.Declares s := by
  refine ⟨hsite.trans h.site, htop.trans h.topName, fun hplain => ?_⟩
  rw [howner, has, hexported]
  exact h.plain hplain

def moduleId (path : String) : String :=
  s!"{path}::{moduleRecordName}"

structure Entry.IsModule (e : Entry) (path : String) : Prop where
  site : e.site = none
  topName : e.topName = none
  id : e.record.id = moduleId path

def Entry.shown (e : Entry) : Entry :=
  { e with record := { e.record with included := true } }

/-- What no later visit changes in an entry. -/
def Entry.outline (e : Entry) : Entry :=
  { e with record := { e.record with included := false } }

theorem Entry.outline_shown (e : Entry) : e.shown.outline = e.outline := rfl

namespace Walk

/-! ## Declarations -/

def recordFor (w : Walk) (s : Site) : FunctionRecord :=
  let display := (w.displayName s.inferredName? s.ownExport?).1
  let plain : FunctionRecord :=
    { id := w.uniqueId (localIdOf display s.ownExport? s.owningClass?), displayName := display
      filePath := w.path, kind := recordKind s.kind, span := some s.tree.span }
  match s.ownExport? with
  | some name => plain.markExported name
  | none => plain

def entryFor (w : Walk) (s : Site) : Entry :=
  let display := (w.displayName s.inferredName? s.ownExport?).1
  let plain : Entry :=
    { record := w.recordFor s, site := some s.index
      localId := some (localIdOf display s.ownExport? s.owningClass?) }
  match s.owningClass? with
  | some (className, index) =>
    match w.entryAt? index with
    | some owner =>
      { plain with
        record := exportWithClass plain.record className owner.record
        ownerId := some owner.record.id }
    | none => plain
  | none => { plain with topName := s.topName? }

theorem register_eq (w : Walk) (s : Site) : w.register s =
    { w with
      entries := w.entries ++ [w.entryFor s]
      anonymous := (w.displayName s.inferredName? s.ownExport?).2 } := by
  unfold register entryFor recordFor
  rcases s.owningClass? with _ | ⟨className, index⟩
  · rfl
  · simp only
    cases w.entryAt? index <;> rfl

theorem register_entries (w : Walk) (s : Site) :
    ∃ e, (w.register s).entries = w.entries ++ [e] ∧ e.Declares s := by
  unfold register
  cases howner : s.owningClass? with
  | none =>
    refine ⟨_, rfl, rfl, rfl, fun _ => ⟨rfl, ?_⟩⟩
    unfold Site.ownExport?
    cases s.exportName? s.inferredName? with
    | none => exact ⟨rfl, rfl⟩
    | some name => exact ⟨rfl, rfl⟩
  | some owner =>
    have htop : s.topName? = none := by
      unfold Site.topName?
      rw [if_neg]
      intro h
      rw [Site.owningClass?_of_isTopLevel h] at howner
      cases howner
    simp only
    split
    · exact ⟨_, rfl, rfl, htop.symm, fun h => by rw [h] at howner; cases howner⟩
    · exact ⟨_, rfl, rfl, htop.symm, fun h => by rw [h] at howner; cases howner⟩

/-! ## Calls -/

theorem charge_fst (w : Walk) (site : Option Nat) : (w.charge site).1 =
    { w with entries := w.entries.map fun e => if e.site == site then e.shown else e } := by
  unfold charge
  split
  · rfl
  · rename_i hnone
    have hmap : (w.entries.map fun e => if e.site == site then e.shown else e) = w.entries := by
      refine (List.map_congr_left fun e he => ?_).trans (List.map_id w.entries)
      rw [if_neg (List.find?_eq_none.mp hnone e he)]
      rfl
    rw [hmap]

theorem charge_snd {w : Walk} {site : Option Nat} {e : Entry}
    (h : w.entries.find? (·.site == site) = some e) : (w.charge site).2 = e.record.id := by
  unfold charge
  rw [h]

theorem withModuleEntry_entries (w : Walk) : ∃ added, w.withModuleEntry.entries = w.entries ++ added ∧
    ∀ e ∈ added, e.IsModule w.path := by
  unfold withModuleEntry
  split
  · exact ⟨[], by simp, by simp⟩
  · refine ⟨_, rfl, fun e he => ?_⟩
    rw [List.mem_singleton.mp he]
    exact ⟨rfl, rfl, rfl⟩

theorem withModuleEntry_site (w : Walk) : ∃ e ∈ w.withModuleEntry.entries, e.site = none := by
  unfold withModuleEntry
  split
  · rename_i h
    obtain ⟨e, he, hsite⟩ := List.any_eq_true.mp h
    exact ⟨e, he, Option.isNone_iff_eq_none.mp hsite⟩
  · exact ⟨_, List.mem_append_right _ List.mem_cons_self, rfl⟩

theorem addCall_entries (w : Walk) (s : Site) (spec : Specifier) (b : ImportBinding) :
    (w.addCall s spec b).entries = (w.beforeCall s).entries.map fun e =>
      if e.site == s.enclosingFunction? then e.shown else e := by
  rw [addCall_def, charge_fst]

theorem beforeCall_entries (w : Walk) (s : Site) : ∃ added, (w.beforeCall s).entries = w.entries ++ added ∧
    ∀ e ∈ added, e.IsModule w.path := by
  unfold beforeCall
  split
  · exact withModuleEntry_entries w
  · exact ⟨[], by simp, by simp⟩

/-! ## Outlines -/

def Added (s : Site) (path : String) (added : List Entry) : Prop :=
  if s.isDeclared then ∃ e, added = [e] ∧ e.Declares s else ∀ e ∈ added, e.IsModule path

theorem Step.outlines {s : Site} {w w' : Walk} (h : Step s w w') : ∃ added,
    w'.entries.map Entry.outline = (w.entries ++ added).map Entry.outline ∧ Added s w.path added := by
  have unchanged : s.isDeclared = false → ∃ added,
      w.entries.map Entry.outline = (w.entries ++ added).map Entry.outline ∧ Added s w.path added := by
    intro hs
    refine ⟨[], by simp, ?_⟩
    rw [Added, if_neg (by simp [hs])]
    simp
  cases h with
  | skip hs => exact unchanged hs
  | load b moduleLevel hs => exact unchanged hs
  | passOn b hs => exact unchanged hs
  | ask hs => exact unchanged hs
  | declare hs =>
    obtain ⟨e, hentries, he⟩ := register_entries w s
    refine ⟨[e], by rw [hentries], ?_⟩
    rw [Added, if_pos hs]
    exact ⟨e, rfl, he⟩
  | call spec b hs =>
    obtain ⟨added, hentries, hadded⟩ := beforeCall_entries w s
    refine ⟨added, ?_, ?_⟩
    · rw [addCall_entries, hentries, List.map_map]
      refine List.map_congr_left fun e _ => ?_
      simp only [Function.comp_apply]
      split
      · exact e.outline_shown
      · rfl
    · rw [Added, if_neg (by simp [hs])]
      exact hadded

/-! ## Entries and sites -/

def declarations (w : Walk) : List Entry :=
  (w.entries.map Entry.outline).filter (·.site.isSome)

/-- Declared sites have entries in their order; there is no other entry but that of the module. -/
structure Recorded (sites : List Site) (w : Walk) : Prop where
  declared : List.Forall₂ Entry.Declares w.declarations (sites.filter (·.isDeclared))
  others : ∀ e ∈ w.entries, e.site = none → e.IsModule w.path

theorem mem_map_outline {es : List Entry} {e : Entry} (he : e ∈ es.map Entry.outline) :
    ∃ e' ∈ es, e'.site = e.site ∧ e'.topName = e.topName ∧ e'.record.id = e.record.id := by
  obtain ⟨e', he', rfl⟩ := List.mem_map.mp he
  exact ⟨e', he', rfl, rfl, rfl⟩

theorem Recorded.step {s : Site} {sites : List Site} {w w' : Walk} (hstep : Step s w w')
    (h : Recorded sites w) : Recorded (sites ++ [s]) w' := by
  obtain ⟨added, houtlines, hadded⟩ := hstep.outlines
  have hpath := hstep.path_eq
  constructor
  · have hdeclarations : w'.declarations =
        w.declarations ++ (added.map Entry.outline).filter (·.site.isSome) := by
      rw [declarations, houtlines, List.map_append, List.filter_append]
      rfl
    rw [hdeclarations, List.filter_append]
    refine List.rel_append h.declared ?_
    by_cases hs : s.isDeclared = true
    · rw [Added, if_pos hs] at hadded
      obtain ⟨e, rfl, he⟩ := hadded
      have hsome : e.outline.site.isSome = true := by
        show e.site.isSome = true
        simp [he.site]
      simp only [List.map_cons, List.map_nil, List.filter_cons, hsome, hs, if_true, List.filter_nil]
      exact .cons (he.of_eq rfl rfl rfl rfl rfl) .nil
    · rw [Added, if_neg hs] at hadded
      have hnil : (added.map Entry.outline).filter (·.site.isSome) = [] := by
        refine List.filter_eq_nil_iff.mpr fun e he => ?_
        obtain ⟨e', he', hsite, -⟩ := mem_map_outline he
        rw [← hsite, (hadded e' he').site]
        simp
      simp only [hnil, List.filter_cons, hs, List.filter_nil]
      exact .nil
  · intro e he hsite
    have hmem : e.outline ∈ (w.entries ++ added).map Entry.outline := by
      rw [← houtlines]
      exact List.mem_map_of_mem he
    obtain ⟨e', he', hsite', htop, hid⟩ := mem_map_outline hmem
    have hmodule : e'.IsModule w.path := by
      rcases List.mem_append.mp he' with hold | hnew
      · exact h.others e' hold (hsite'.trans hsite)
      · by_cases hs : s.isDeclared = true
        · rw [Added, if_pos hs] at hadded
          obtain ⟨d, rfl, hd⟩ := hadded
          rw [List.mem_singleton.mp hnew, hd.site] at hsite'
          exact absurd (hsite'.trans hsite) (by simp)
        · rw [Added, if_neg hs] at hadded
          exact hadded e' hnew
    rw [hpath]
    exact ⟨hsite, htop.symm.trans hmodule.topName, hid.symm.trans hmodule.id⟩

/-- A declared site has an entry. -/
theorem Recorded.entry {sites : List Site} {w : Walk} (h : Recorded sites w) {s : Site}
    (hs : s ∈ sites) (hdeclared : s.isDeclared = true) : ∃ e ∈ w.entries, e.Declares s := by
  have find : ∀ es ss, List.Forall₂ Entry.Declares es ss → s ∈ ss → ∃ e ∈ es, e.Declares s := by
    intro es ss hall
    induction hall with
    | nil => intro hs; cases hs
    | cons hd _ ih =>
      intro hs
      rcases List.mem_cons.mp hs with rfl | hs
      · exact ⟨_, List.mem_cons_self, hd⟩
      · obtain ⟨e, he, hd⟩ := ih hs
        exact ⟨e, List.mem_cons_of_mem _ he, hd⟩
  obtain ⟨e, he, hd⟩ := find _ _ h.declared (List.mem_filter.mpr ⟨hs, hdeclared⟩)
  obtain ⟨e', he', rfl⟩ := List.mem_map.mp (List.mem_filter.mp he).1
  exact ⟨e', he', hd.of_eq rfl rfl rfl rfl rfl⟩

theorem start_entries (path : String) (root : Tree) : (start path root).entries = [] :=
  start_induction (P := fun w => w.entries = []) rfl fun _ _ _ _ _ h => h

theorem start_recorded (path : String) (root : Tree) : Recorded [] (start path root) where
  declared := by simp [declarations, start_entries]
  others := by simp [start_entries]

end Walk

end CodeAtlas.Script
