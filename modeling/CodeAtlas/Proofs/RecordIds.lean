import CodeAtlas.Proofs.CallTrace
import CodeAtlas.Proofs.Delimited
import CodeAtlas.Proofs.ExportedCalls
import Mathlib.Tactic.Tauto

/-!
# Ids of records

The id of a declaration is made of its local name and, from the second declaration of that name on,
of a mark with a number. A name that is written in quotes can spell the name and mark of others, or
the name of the `(module)` record. Apart from these two cases the ids of a module are distinct
(`ids_nodup_iff`).
-/

namespace CodeAtlas.Script

/-! ## Repeated names -/

/-- Each name with the number of equal names before it. -/
def tags (names : List String) : List (String × Nat) :=
  names.foldl (fun ts name => ts ++ [(name, ts.countP (·.1 == name))]) []

theorem tags_map_fst (names : List String) : (tags names).map (·.1) = names := by
  induction names using List.reverseRecOn with
  | nil => rfl
  | append_singleton names name ih =>
    rw [tags, List.foldl_append, ← tags]
    simp [ih]

theorem tags_concat (names : List String) (name : String) :
    tags (names ++ [name]) = tags names ++ [(name, names.count name)] := by
  have hcount : (tags names).countP (·.1 == name) = names.count name := by
    rw [← tags_map_fst names, List.count, List.countP_map, tags_map_fst]
    rfl
  rw [tags, List.foldl_append, ← tags]
  simp [hcount]

theorem mem_tags {names : List String} {name : String} {c : Nat} :
    (name, c) ∈ tags names ↔ c < names.count name := by
  induction names using List.reverseRecOn with
  | nil => simp [tags]
  | append_singleton names last ih =>
    rw [tags_concat, List.mem_append, ih, List.mem_singleton, Prod.mk.injEq, List.count_append,
      List.count_singleton]
    by_cases hlast : last = name
    · subst hlast
      simp only [true_and, beq_self_eq_true, if_true]
      omega
    · simp [hlast, Ne.symm hlast]

theorem tags_nodup (names : List String) : (tags names).Nodup := by
  induction names using List.reverseRecOn with
  | nil => exact List.nodup_nil
  | append_singleton names last ih =>
    rw [tags_concat, ← List.concat_eq_append, List.nodup_concat]
    refine ⟨?_, ih⟩
    rw [mem_tags]
    exact Nat.lt_irrefl _

/-! ## Marks -/

def mark (c : Nat) : String :=
  if c == 0 then "" else s!"#{c + 1}"

def idOf (path : String) (tag : String × Nat) : String :=
  s!"{path}::{tag.1}{mark tag.2}"

theorem idOf_eq (path : String) (tag : String × Nat) :
    idOf path tag = path ++ "::" ++ (tag.1 ++ mark tag.2) := by
  rw [← String.append_assoc]
  rfl

theorem idOf_eq_iff (path : String) (x y : String × Nat) :
    idOf path x = idOf path y ↔ x.1 ++ mark x.2 = y.1 ++ mark y.2 := by
  rw [idOf_eq, idOf_eq, String.append_right_inj]

@[simp] theorem append_mark_zero (name : String) : name ++ mark 0 = name :=
  String.append_empty

theorem append_mark {c : Nat} (h : c ≠ 0) (name : String) : name ++ mark c = s!"{name}#{c + 1}" := by
  rw [mark, if_neg (by simpa using h)]
  change name ++ ("#" ++ toString (c + 1)) = name ++ "#" ++ toString (c + 1)
  rw [String.append_assoc]

theorem toList_numbered (name : String) (k : Nat) :
    (s!"{name}#{k}").toList = name.toList ++ '#' :: Nat.toDigits 10 k := by
  change (name ++ "#" ++ toString k).toList = _
  simp

/-- The number behind the last mark and the name in front of it can be told. -/
theorem numbered_inj {name other : String} {k l : Nat} (h : s!"{name}#{k}" = s!"{other}#{l}") :
    name = other ∧ k = l := by
  have hlist := congrArg (fun s : String => s.toList.reverse) h
  simp only [toList_numbered, List.reverse_append, List.reverse_cons, List.append_assoc,
    List.singleton_append] at hlist
  have hdigits : ∀ (n : Nat), ∀ c ∈ (Nat.toDigits 10 n).reverse, c.isDigit = true := fun n c hc =>
    Nat.isDigit_of_mem_toDigits (by decide) (by decide) (List.mem_reverse.1 hc)
  obtain ⟨hnumber, hname⟩ := append_inj_of_stops (hdigits k) (hdigits l) (by simp) (by simp) hlist
  have hvalue := congrArg (Nat.ofDigitChars 10 · 0) (List.reverse_injective hnumber)
  simp only [Nat.ofDigitChars_ten_toDigits] at hvalue
  exact ⟨String.toList_inj.1 (List.reverse_injective (List.cons.inj hname).2), hvalue⟩

/-- Equal ids are those of one declaration, or one name spells the other and its mark. -/
theorem eq_or_spelled_of_idOf_eq {path : String} {x y : String × Nat} (h : idOf path x = idOf path y) :
    x = y ∨ x.2 = 0 ∧ y.2 ≠ 0 ∧ x.1 = s!"{y.1}#{y.2 + 1}" ∨
      y.2 = 0 ∧ x.2 ≠ 0 ∧ y.1 = s!"{x.1}#{x.2 + 1}" := by
  obtain ⟨name, c⟩ := x
  obtain ⟨other, d⟩ := y
  rw [idOf_eq_iff] at h
  by_cases hc : c = 0
  · subst hc
    by_cases hd : d = 0
    · subst hd
      exact .inl (Prod.ext (by simpa using h) rfl)
    · rw [append_mark_zero, append_mark hd] at h
      exact .inr (.inl ⟨rfl, hd, h⟩)
  · by_cases hd : d = 0
    · subst hd
      rw [append_mark_zero, append_mark hc] at h
      exact .inr (.inr ⟨rfl, hc, h.symm⟩)
    · rw [append_mark hc, append_mark hd] at h
      obtain ⟨hname, hnumber⟩ := numbered_inj h
      exact .inl (Prod.ext hname (Nat.succ.inj hnumber))

theorem nodup_ids_iff (path : String) (names : List String) :
    ((tags names).map (idOf path)).Nodup ↔
      ∀ base k, 2 ≤ k → k ≤ names.count base → s!"{base}#{k}" ∉ names := by
  rw [List.nodup_map_iff_inj_on (tags_nodup names)]
  constructor
  · intro h base k hk hcount hmem
    have hmarked : (base, k - 1) ∈ tags names := mem_tags.2 (by omega)
    have hspelled : (s!"{base}#{k}", 0) ∈ tags names := mem_tags.2 (List.count_pos_iff.2 hmem)
    have hsame : idOf path (base, k - 1) = idOf path (s!"{base}#{k}", 0) := by
      rw [idOf_eq_iff, append_mark_zero, append_mark (by show k - 1 ≠ 0; omega)]
      simp only [Nat.sub_add_cancel (show 1 ≤ k by omega)]
    have hzero := congrArg Prod.snd (h _ hmarked _ hspelled hsame)
    simp only at hzero
    omega
  · intro h x hx y hy hsame
    rw [mem_tags] at hx hy
    rcases eq_or_spelled_of_idOf_eq hsame with heq | ⟨hzero, hmark, hspelled⟩ | ⟨hzero, hmark, hspelled⟩
    · exact heq
    · rw [hzero, hspelled] at hx
      exact absurd (List.count_pos_iff.1 hx) (h y.1 (y.2 + 1) (by omega) hy)
    · rw [hzero, hspelled] at hy
      exact absurd (List.count_pos_iff.1 hy) (h x.1 (x.2 + 1) (by omega) hx)

/-- No mark makes another name that of the module's record, which ends in a bracket. -/
theorem moduleId_mem_iff (path : String) (names : List String) :
    moduleId path ∈ (tags names).map (idOf path) ↔ moduleRecordName ∈ names := by
  have hid : moduleId path = idOf path (moduleRecordName, 0) := by
    rw [idOf_eq, append_mark_zero]
    rfl
  rw [hid, List.mem_map]
  constructor
  · rintro ⟨⟨name, c⟩, hmem, heq⟩
    rw [idOf_eq_iff, append_mark_zero] at heq
    rw [mem_tags] at hmem
    by_cases hc : c = 0
    · subst hc
      rw [append_mark_zero] at heq
      simp only at heq
      rw [← heq]
      exact List.count_pos_iff.1 hmem
    · rw [append_mark hc] at heq
      simp only at heq
      have hmark : '#' ∈ moduleRecordName.toList := by
        rw [← heq, toList_numbered]
        simp
      exact absurd hmark (by decide)
  · intro hmem
    exact ⟨(moduleRecordName, 0), mem_tags.2 (List.count_pos_iff.2 hmem), rfl⟩

/-! ## Names of declarations -/

def Site.isNameless (s : Site) : Bool :=
  s.inferredName?.isNone && s.ownExport? != some "default"

def Site.shownName (s : Site) (made : Nat) : String :=
  s.inferredName?.getD (if s.ownExport? == some "default" then "default" else s!"anonymous_{made}")

def Site.localName (s : Site) (made : Nat) : String :=
  Walk.localIdOf (s.shownName made) s.ownExport? s.owningClass?

def localNamesFrom (made : Nat) : List Site → List String
  | [] => []
  | s :: rest => s.localName made :: localNamesFrom (if s.isNameless then made + 1 else made) rest

def localNames (sites : List Site) : List String :=
  localNamesFrom 0 (sites.filter (·.isDeclared))

def madeNames (sites : List Site) : Nat :=
  (sites.filter (·.isDeclared)).countP (·.isNameless)

theorem localNamesFrom_concat (made : Nat) (sites : List Site) (s : Site) :
    localNamesFrom made (sites ++ [s]) =
      localNamesFrom made sites ++ [s.localName (made + sites.countP (·.isNameless))] := by
  induction sites generalizing made with
  | nil => rfl
  | cons t sites ih =>
    rw [List.cons_append, localNamesFrom, localNamesFrom, ih, List.countP_cons]
    cases t.isNameless with
    | true => simp [Nat.add_comm, Nat.add_left_comm]
    | false => simp

theorem localNames_concat (sites : List Site) {s : Site} (h : s.isDeclared = true) :
    localNames (sites ++ [s]) = localNames sites ++ [s.localName (madeNames sites)] := by
  have hfilter : (sites ++ [s]).filter (·.isDeclared) = sites.filter (·.isDeclared) ++ [s] := by
    simp [h]
  rw [localNames, hfilter, localNamesFrom_concat, Nat.zero_add]
  rfl

theorem madeNames_concat (sites : List Site) {s : Site} (h : s.isDeclared = true) :
    madeNames (sites ++ [s]) = madeNames sites + (if s.isNameless then 1 else 0) := by
  simp [madeNames, h, List.countP_cons]

theorem localNames_undeclared (sites : List Site) {s : Site} (h : s.isDeclared = false) :
    localNames (sites ++ [s]) = localNames sites ∧ madeNames (sites ++ [s]) = madeNames sites := by
  simp [localNames, madeNames, h]

namespace Walk

theorem displayName_eq (w : Walk) (s : Site) :
    w.displayName s.inferredName? s.ownExport? =
      (s.shownName w.anonymous, if s.isNameless then w.anonymous + 1 else w.anonymous) := by
  unfold displayName Site.shownName Site.isNameless
  cases s.inferredName? with
  | some name => rfl
  | none => cases hdefault : s.ownExport? == some "default" <;> simp_all [bne]

/-! ## Ids -/

def declaredIds (w : Walk) : List String :=
  (w.labels.filter (·.1.isSome)).map (·.2)

def moduleIds (w : Walk) : List String :=
  (w.labels.filter (·.1.isNone)).map (·.2)

def entryNames (w : Walk) : List String :=
  w.entries.filterMap (·.localId)

theorem uniqueId_eq (w : Walk) (name : String) :
    w.uniqueId name = idOf w.path (name, w.entryNames.count name) := by
  have hcount : w.entries.countP (·.localId == some name) = w.entryNames.count name := by
    unfold entryNames
    induction w.entries with
    | nil => rfl
    | cons e es ih =>
      rw [List.countP_cons, ih, List.filterMap_cons]
      cases e.localId with
      | none => simp
      | some other => simp [List.count_cons]
  rw [uniqueId, hcount]
  rfl

theorem exportWithClass_id (r : FunctionRecord) (className : Option String) (owner : FunctionRecord) :
    (exportWithClass r className owner).id = r.id := by
  unfold exportWithClass
  split
  · split <;> rfl
  · rfl

theorem register_labels (w : Walk) (s : Site) : ∃ e, (w.register s).entries = w.entries ++ [e] ∧
    e.site = some s.index ∧ e.localId = some (s.localName w.anonymous) ∧
    e.record.id = w.uniqueId (s.localName w.anonymous) := by
  have hdisplay := w.displayName_eq s
  have hname : localIdOf (s.shownName w.anonymous) s.ownExport? s.owningClass? =
      s.localName w.anonymous := rfl
  unfold Site.ownExport? at hdisplay hname
  unfold register
  simp only [hdisplay, hname]
  refine ⟨_, rfl, ?_⟩
  split
  · split
    · refine ⟨rfl, rfl, (exportWithClass_id _ _ _).trans ?_⟩
      split <;> rfl
    · refine ⟨rfl, rfl, ?_⟩
      split <;> rfl
  · refine ⟨rfl, rfl, ?_⟩
    split <;> rfl

theorem register_anonymous (w : Walk) (s : Site) : (w.register s).anonymous =
    if s.isNameless then w.anonymous + 1 else w.anonymous :=
  congrArg Prod.snd (w.displayName_eq s)

theorem addCall_names (w : Walk) (s : Site) (spec : Specifier) (b : ImportBinding) :
    (w.addCall s spec b).labels = (w.beforeCall s).labels ∧
      (w.addCall s spec b).entryNames = (w.beforeCall s).entryNames := by
  constructor
  · rw [labels, addCall_entries, List.map_map]
    refine List.map_congr_left fun e _ => ?_
    simp only [Function.comp_apply]
    split <;> rfl
  · rw [entryNames, addCall_entries, List.filterMap_map]
    refine List.filterMap_congr fun e _ => ?_
    simp only [Function.comp_apply]
    split <;> rfl

theorem addCall_anonymous (w : Walk) (s : Site) (spec : Specifier) (b : ImportBinding) :
    (w.addCall s spec b).anonymous = w.anonymous := by
  obtain ⟨entries, calls, heq⟩ := w.addCall_eq s spec b
  rw [heq]

theorem withModuleEntry_names (w : Walk) : w.withModuleEntry.entryNames = w.entryNames ∧
    w.withModuleEntry.labels =
      if w.moduleIds = [] then w.labels ++ [(none, moduleId w.path)] else w.labels := by
  have hnone : w.moduleIds = [] ↔ ¬ w.entries.any (·.site.isNone) = true := by
    simp [moduleIds, labels, List.filter_eq_nil_iff]
  unfold withModuleEntry
  by_cases hany : w.entries.any (·.site.isNone) = true
  · rw [if_pos hany, if_neg (by rwa [hnone, not_not])]
    exact ⟨rfl, rfl⟩
  · rw [if_neg hany, if_pos (hnone.2 hany)]
    constructor
    · simp [entryNames]
    · rw [labels, labels, List.map_append]
      rfl

end Walk

/-! ## Along the walk -/

def Tree.callsFromModule (root : Tree) (path : String) (s : Site) : Bool :=
  s.enclosingFunction?.isNone && !(root.callsAt path s).isEmpty

theorem Tree.any_callsFromModule_of_nil {path : String} {root : Tree} {s : Site}
    (h : root.callsAt path s = []) (sites : List Site) :
    (sites ++ [s]).any (root.callsFromModule path) = sites.any (root.callsFromModule path) := by
  simp [callsFromModule, h]

theorem Tree.any_callsFromModule_of_ne_nil {path : String} {root : Tree} {s : Site}
    (h : root.callsAt path s ≠ []) (sites : List Site) :
    (sites ++ [s]).any (root.callsFromModule path) =
      (sites.any (root.callsFromModule path) || s.enclosingFunction?.isNone) := by
  have hsome : (root.callsAt path s).isEmpty = false := by
    rw [Bool.eq_false_iff, Ne, List.isEmpty_iff]
    exact h
  simp [callsFromModule, hsome]

structure Labelled (path : String) (root : Tree) (sites : List Site) (w : Walk) : Prop where
  names : w.entryNames = localNames sites
  made : w.anonymous = madeNames sites
  declared : w.declaredIds = (tags (localNames sites)).map (idOf path)
  outside : w.moduleIds = if sites.any (root.callsFromModule path) then [moduleId path] else []

section
variable {path : String} {root : Tree} {sites : List Site} {s : Site} {w w' : Walk}
  (h : Labelled path root sites w)
include h

theorem Labelled.unchanged (hentries : w'.entries = w.entries) (hmade : w'.anonymous = w.anonymous)
    (hs : s.isDeclared = false) (hcalls : root.callsAt path s = []) :
    Labelled path root (sites ++ [s]) w' := by
  obtain ⟨hnames, hcount⟩ := localNames_undeclared sites hs
  have hlabels : w'.labels = w.labels := by rw [Walk.labels, Walk.labels, hentries]
  refine ⟨?_, ?_, ?_, ?_⟩
  · rw [Walk.entryNames, hentries, hnames, ← h.names]
    rfl
  · rw [hmade, hcount, h.made]
  · rw [Walk.declaredIds, hlabels, hnames, ← h.declared]
    rfl
  · rw [Walk.moduleIds, hlabels, Tree.any_callsFromModule_of_nil hcalls, ← h.outside]
    rfl

theorem Labelled.declare (hpath : w.path = path) (hs : s.isDeclared = true)
    (hcalls : root.callsAt path s = []) : Labelled path root (sites ++ [s]) (w.register s) := by
  obtain ⟨e, hentries, hsite, hname, hid⟩ := w.register_labels s
  have hlabels : (w.register s).labels = w.labels ++ [(some s.index, e.record.id)] := by
    rw [Walk.labels, hentries, List.map_append, ← Walk.labels]
    simp [hsite]
  refine ⟨?_, ?_, ?_, ?_⟩
  · rw [Walk.entryNames, hentries, List.filterMap_append, ← Walk.entryNames, h.names,
      localNames_concat sites hs, ← h.made]
    simp [hname]
  · rw [Walk.register_anonymous, madeNames_concat sites hs, ← h.made]
    split <;> rfl
  · rw [Walk.declaredIds, hlabels, List.filter_append, List.map_append, ← Walk.declaredIds,
      h.declared, localNames_concat sites hs, tags_concat, List.map_append, ← h.made, ← h.names, hid,
      w.uniqueId_eq, hpath]
    rfl
  · rw [Walk.moduleIds, hlabels, List.filter_append, List.map_append, ← Walk.moduleIds, h.outside,
      Tree.any_callsFromModule_of_nil hcalls]
    exact List.append_nil _

theorem Labelled.callInside (hs : s.isDeclared = false) (hinside : s.enclosingFunction?.isNone = false)
    (spec : Specifier) (b : ImportBinding) (hcalls : root.callsAt path s ≠ []) :
    Labelled path root (sites ++ [s]) (w.addCall s spec b) := by
  obtain ⟨hnames, hcount⟩ := localNames_undeclared sites hs
  obtain ⟨hlabels, hentryNames⟩ := w.addCall_names s spec b
  rw [Walk.beforeCall, if_neg (by simp [hinside])] at hlabels hentryNames
  refine ⟨?_, ?_, ?_, ?_⟩
  · rw [hentryNames, hnames, h.names]
  · rw [w.addCall_anonymous, hcount, h.made]
  · rw [hnames, ← h.declared, Walk.declaredIds, hlabels, Walk.declaredIds]
  · rw [Tree.any_callsFromModule_of_ne_nil hcalls, hinside, Bool.or_false, ← h.outside, Walk.moduleIds,
      hlabels, Walk.moduleIds]

theorem Labelled.callOutside (hpath : w.path = path) (hs : s.isDeclared = false)
    (houtside : s.enclosingFunction?.isNone = true) (spec : Specifier) (b : ImportBinding)
    (hcalls : root.callsAt path s ≠ []) : Labelled path root (sites ++ [s]) (w.addCall s spec b) := by
  obtain ⟨hnames, hcount⟩ := localNames_undeclared sites hs
  obtain ⟨hlabels, hentryNames⟩ := w.addCall_names s spec b
  obtain ⟨hsame, hadded⟩ := w.withModuleEntry_names
  rw [Walk.beforeCall, if_pos houtside] at hlabels hentryNames
  rw [hadded] at hlabels
  refine ⟨?_, ?_, ?_, ?_⟩
  · rw [hentryNames, hsame, hnames, h.names]
  · rw [w.addCall_anonymous, hcount, h.made]
  · rw [hnames, ← h.declared, Walk.declaredIds, hlabels, Walk.declaredIds]
    split
    · simp
    · rfl
  · rw [Tree.any_callsFromModule_of_ne_nil hcalls, houtside, Bool.or_true, if_pos rfl, Walk.moduleIds,
      hlabels]
    -- the record of the module is made by the first such call and kept by the others
    split
    · next hnil =>
      rw [List.filter_append, List.map_append, ← Walk.moduleIds, hnil, hpath]
      rfl
    · next hone =>
      rw [← Walk.moduleIds, h.outside]
      rw [h.outside] at hone
      split
      · rfl
      · next hnone => exact absurd (if_neg hnone) hone

theorem Labelled.step (hpath : w.path = path) (hstep : Walk.Step s w w')
    (hcalls : w'.calls = w.calls ++ root.callsAt path s) :
    Labelled path root (sites ++ [s]) w' := by
  cases hstep with
  | skip hs => exact h.unchanged rfl rfl hs (by simpa using hcalls)
  | load b moduleLevel hs => exact h.unchanged rfl rfl hs (by simpa [Walk.addBinding] using hcalls)
  | passOn b hs => exact h.unchanged rfl rfl hs (by simpa using hcalls)
  | ask hs => exact h.unchanged rfl rfl hs (by simpa using hcalls)
  | declare hs => exact h.declare hpath hs (by simpa [Walk.register] using hcalls)
  | call spec b hs =>
    have hrecorded : root.callsAt path s ≠ [] := by
      intro hnil
      obtain ⟨before, hbefore⟩ := w.beforeCall_eq s
      rw [hnil, Walk.addCall_def, Walk.charge_fst, hbefore] at hcalls
      simp at hcalls
    by_cases houtside : s.enclosingFunction?.isNone = true
    · exact h.callOutside hpath hs houtside spec b hrecorded
    · exact h.callInside hs (Bool.eq_false_iff.2 houtside) spec b hrecorded

end

theorem walkTo_labelled (path : String) (root : Tree) (n : Nat) :
    Labelled path root (root.sites.take n) (root.walkTo path n) := by
  refine walkTo_induction (P := Labelled path root) path ?_ ?_ n
  · have hentries := Walk.start_entries path root
    have hmade : (Walk.start path root).anonymous = 0 :=
      Walk.start_induction (P := fun w => w.anonymous = 0) rfl fun _ _ _ _ _ h => h
    refine ⟨?_, hmade, ?_, ?_⟩
    · exact (congrArg (List.filterMap Entry.localId) hentries).trans rfl
    · simp [Walk.declaredIds, Walk.labels, hentries, localNames, localNamesFrom, tags]
    · simp [Walk.moduleIds, Walk.labels, hentries]
  · intro pre s post w w' _ hpath hstep hcalls h
    exact h.step hpath hstep hcalls

/-- Nothing but the order of the ids is left open. -/
theorem walkModule_ids (path : String) (root : Tree) :
    ((walkModule path root).entries.map (·.record.id)).Perm
      ((tags (localNames root.sites)).map (idOf path) ++
        if root.sites.any (root.callsFromModule path) then [moduleId path] else []) := by
  have hlabelled := walkTo_labelled path root root.sites.length
  have hlabels : (walkModule path root).labels = (root.walkTo path root.sites.length).labels := by
    rw [walkModule, Walk.finish_labels, walkTo_length]
  rw [List.take_length] at hlabelled
  have hids : (walkModule path root).entries.map (·.record.id) =
      (root.walkTo path root.sites.length).labels.map (·.2) := by
    rw [← hlabels, Walk.labels, List.map_map]
    rfl
  rw [hids, ← hlabelled.declared, ← hlabelled.outside, Walk.declaredIds, Walk.moduleIds,
    ← List.map_append]
  have hsplit := List.filter_append_perm (fun l : Option Nat × String => l.1.isSome)
    (root.walkTo path root.sites.length).labels
  simp only [Option.not_isSome] at hsplit
  exact (hsplit.map (·.2)).symm

theorem nodup_functions_iff (path : String) (root : Tree) (d : Dialect) (content : String) :
    (((walkModule path root).analysis d content).functions.map (·.id)).Nodup ↔
      (∀ base k, 2 ≤ k → k ≤ (localNames root.sites).count base →
        s!"{base}#{k}" ∉ localNames root.sites) ∧
      ((∃ s ∈ root.sites, root.callsFromModule path s = true) →
        moduleRecordName ∉ localNames root.sites) := by
  have hids : ((walkModule path root).analysis d content).functions.map (·.id) =
      (walkModule path root).entries.map (·.record.id) := List.map_map
  rw [hids, (walkModule_ids path root).nodup_iff, ← nodup_ids_iff path, ← List.any_eq_true]
  by_cases hmodule : root.sites.any (root.callsFromModule path) = true
  · rw [if_pos hmodule, ← List.concat_eq_append, List.nodup_concat, moduleId_mem_iff]
    tauto
  · rw [if_neg hmodule, List.append_nil]
    tauto

/-- The ids of a module's records differ unless a declaration's own name is that of another with its
mark, or that of the module's record where there is one. -/
theorem ids_nodup_iff (path : String) (root : Tree) (d : Dialect) (content : String) :
    ((((walkModule path root).analysis d content).functions.map (·.id)).Nodup ↔
      (∀ base k, 2 ≤ k → k ≤ (localNames root.sites).count base →
        s!"{base}#{k}" ∉ localNames root.sites) ∧
      ((∃ s ∈ root.sites, root.callsFromModule path s = true) →
        moduleRecordName ∉ localNames root.sites)) ∧
    ((∀ name ∈ localNames root.sites, '#' ∉ name.toList ∧ name ≠ moduleRecordName) →
      (((walkModule path root).analysis d content).functions.map (·.id)).Nodup) := by
  have hiff := nodup_functions_iff path root d content
  refine ⟨hiff, fun hplain => hiff.2 ⟨fun base k _ _ hmem => ?_, fun _ hmem => ?_⟩⟩
  · refine (hplain _ hmem).1 ?_
    rw [toList_numbered]
    simp
  · exact (hplain _ hmem).2 rfl

/-! ## Names in quotes -/

open Assembly (leaf phrase)

def emptyFunction (name : String) : Tree :=
  phrase .functionDeclaration [leaf .identifier name (some .name)] none

def quotedMethod (name : String) : Tree :=
  phrase .lexicalDeclaration [phrase .variableDeclarator [leaf .identifier "o" (some .name),
    phrase .object [phrase .methodDefinition [
      phrase .string [leaf .token "'" none, leaf .stringText name none, leaf .token "'" none]
        (some .name)] none] (some .value)] none] none

/-- Two functions `a`, and a method `a#2`. -/
def numberedInQuotes : Tree :=
  phrase .program [emptyFunction "a", emptyFunction "a", quotedMethod "a#2"] none

def moduleInQuotes : Tree :=
  phrase .program [
    phrase .importStatement [
      phrase .importClause [phrase .namedImports [
        phrase .importSpecifier [leaf .identifier "x" (some .name)] none] none] none,
      phrase .string [leaf .token "'" none, leaf .stringText "./m" none, leaf .token "'" none]
        (some .source)] none,
    quotedMethod "(module)",
    phrase .expressionStatement [Assembly.callOf "x"] none] none

theorem ids_of_quoted_names :
    ((walkModule "a.ts" numberedInQuotes).analysis .typescript "").functions.map (·.id) =
      ["a.ts::a", "a.ts::a#2", "a.ts::a#2"] ∧
    ((walkModule "a.ts" moduleInQuotes).analysis .typescript "").functions.map (·.id) =
      ["a.ts::(module)", "a.ts::(module)"] ∧
    ¬ ["a.ts::a", "a.ts::a#2", "a.ts::a#2"].Nodup ∧ ¬ ["a.ts::(module)", "a.ts::(module)"].Nodup := by
  decide +kernel

end CodeAtlas.Script
