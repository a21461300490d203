import CodeAtlas.Graph.Assembly

/-!
# What the index of exports holds

A lookup in the index gives the first of all records that are exported under the key
(`find?_ofAnalyses_eq_some`).
-/

namespace CodeAtlas

def ExportedAt (analyses : List FileAnalysis) (key : String) (p : Place) : Prop :=
  ∃ a f, analyses[p.file]? = some a ∧ a.functions[p.slot]? = some f ∧ f.exportKey? a.path = some key

def Place.Before (p q : Place) : Prop :=
  p.file < q.file ∨ p.file = q.file ∧ p.slot < q.slot

theorem Place.Before.irrefl {p : Place} : ¬ p.Before p := by
  unfold Before
  omega

theorem Place.Before.asymm {p q : Place} (h : p.Before q) : ¬ q.Before p := by
  unfold Before at *
  omega

namespace ExportIndex

/-! ## All exported records -/

def keyedRecords (path : String) (file : Nat) (fs : List (FunctionRecord × Nat)) :
    List (String × Place) :=
  fs.filterMap fun x => (x.1.exportKey? path).map (·, ⟨file, x.2⟩)

def keyedPlaces (analyses : List FileAnalysis) : List (String × Place) :=
  analyses.zipIdx.flatMap fun x => keyedRecords x.1.path x.2 x.1.functions.zipIdx

theorem mem_keyedRecords {path key : String} {file : Nat} {fs : List (FunctionRecord × Nat)} {p : Place} :
    (key, p) ∈ keyedRecords path file fs ↔
      p.file = file ∧ ∃ f, (f, p.slot) ∈ fs ∧ f.exportKey? path = some key := by
  simp only [keyedRecords, List.mem_filterMap, Option.map_eq_some_iff, Prod.mk.injEq, Prod.exists]
  constructor
  · rintro ⟨f, slot, hf, k, hk, rfl, rfl⟩
    exact ⟨rfl, f, hf, hk⟩
  · rintro ⟨rfl, f, hf, hk⟩
    exact ⟨f, p.slot, hf, key, hk, rfl, rfl⟩

theorem mem_keyedPlaces {analyses : List FileAnalysis} {key : String} {p : Place} :
    (key, p) ∈ keyedPlaces analyses ↔ ExportedAt analyses key p := by
  simp only [keyedPlaces, List.mem_flatMap, mem_keyedRecords, Prod.exists,
    List.mk_mem_zipIdx_iff_getElem?, ExportedAt]
  constructor
  · rintro ⟨a, file, ha, rfl, f, hf, hk⟩
    exact ⟨a, f, ha, hf, hk⟩
  · rintro ⟨a, f, ha, hf, hk⟩
    exact ⟨a, p.file, ha, rfl, f, hf, hk⟩

theorem zipIdx_pairwise {α : Type} (xs : List α) : xs.zipIdx.Pairwise fun x y => x.2 < y.2 := by
  have h : (xs.zipIdx.map (·.2)).Pairwise (· < ·) := by
    rw [List.zipIdx_map_snd]
    exact List.pairwise_lt_range'
  exact List.pairwise_map.mp h

theorem keyedPlaces_pairwise (analyses : List FileAnalysis) :
    (keyedPlaces analyses).Pairwise fun x y => x.2.Before y.2 := by
  refine List.pairwise_flatMap.mpr ⟨fun x _ => ?_, ?_⟩
  · refine List.pairwise_filterMap.mpr ((zipIdx_pairwise _).imp fun hlt y hy z hz => ?_)
    obtain ⟨_, -, rfl⟩ := Option.map_eq_some_iff.mp hy
    obtain ⟨_, -, rfl⟩ := Option.map_eq_some_iff.mp hz
    exact .inr ⟨rfl, hlt⟩
  · refine (zipIdx_pairwise _).imp fun hlt y hy z hz => .inl ?_
    obtain ⟨key, p⟩ := y
    obtain ⟨key', p'⟩ := z
    rw [(mem_keyedRecords.mp hy).1, (mem_keyedRecords.mp hz).1]
    exact hlt

/-! ## Lookups -/

theorem lookup_add (index : ExportIndex) (key k : String) (p : Place) :
    List.lookup key (index.add k p) = (List.lookup key index).or (List.lookup key [(k, p)]) := by
  unfold add
  split
  · rename_i hany
    obtain ⟨x, hx, hk⟩ := List.any_eq_true.mp hany
    by_cases hkey : key = k
    · cases hlookup : List.lookup key index with
      | some q => rfl
      | none =>
        have hne := List.lookup_eq_none_iff.mp hlookup x hx
        rw [hkey, ← beq_iff_eq.mp hk] at hne
        simp at hne
    · have hother : (key == k) = false := beq_eq_false_iff_ne.mpr hkey
      simp [List.lookup_cons, hother]
  · rw [List.lookup_append]

theorem lookup_addRecords (path key : String) (file : Nat) (fs : List (FunctionRecord × Nat)) :
    ∀ index, List.lookup key (addRecords path file index fs) =
      (List.lookup key index).or (List.lookup key (keyedRecords path file fs)) := by
  induction fs with
  | nil =>
    intro index
    simp [addRecords, keyedRecords]
  | cons x fs ih =>
    intro index
    obtain ⟨f, slot⟩ := x
    have hcons : keyedRecords path file ((f, slot) :: fs) =
        ((f.exportKey? path).map (·, (⟨file, slot⟩ : Place))).toList ++ keyedRecords path file fs := by
      unfold keyedRecords
      rw [List.filterMap_cons]
      cases f.exportKey? path <;> rfl
    rw [addRecords, ih, hcons, List.lookup_append, ← Option.or_assoc]
    congr 1
    cases f.exportKey? path with
    | none => simp
    | some k => exact lookup_add index key k ⟨file, slot⟩

theorem lookup_ofAnalyses (analyses : List FileAnalysis) (key : String) :
    List.lookup key (ofAnalyses analyses) = List.lookup key (keyedPlaces analyses) := by
  have run : ∀ (xs : List (FileAnalysis × Nat)) (index : ExportIndex),
      List.lookup key (xs.foldl (fun index x => addRecords x.1.path x.2 index x.1.functions.zipIdx) index) =
        (List.lookup key index).or
          (List.lookup key (xs.flatMap fun x => keyedRecords x.1.path x.2 x.1.functions.zipIdx)) := by
    intro xs
    induction xs with
    | nil => intro index; simp
    | cons x xs ih =>
      intro index
      rw [List.foldl_cons, ih, lookup_addRecords, List.flatMap_cons, List.lookup_append, Option.or_assoc]
  exact run analyses.zipIdx []

variable {analyses : List FileAnalysis} {path name : String}

theorem find?_ofAnalyses_eq_some {p : Place} : (ofAnalyses analyses).find? path name = some p ↔
    ExportedAt analyses (exportKey path name) p ∧
      ∀ q, ExportedAt analyses (exportKey path name) q → ¬ q.Before p := by
  rw [find?, lookup_ofAnalyses, List.lookup_eq_some_iff]
  have hsorted := keyedPlaces_pairwise analyses
  constructor
  · rintro ⟨before, after, hsplit, hbefore⟩
    rw [hsplit, List.pairwise_append, List.pairwise_cons] at hsorted
    refine ⟨mem_keyedPlaces.mp (by simp [hsplit]), fun q hq hlt => ?_⟩
    have hmem := mem_keyedPlaces.mpr hq
    rw [hsplit] at hmem
    rcases List.mem_append.mp hmem with hmem | hmem
    · have := hbefore _ hmem
      simp at this
    · rcases List.mem_cons.mp hmem with heq | hmem
      · cases heq
        exact Place.Before.irrefl hlt
      · exact (hsorted.2.1.1 _ hmem).asymm hlt
  · rintro ⟨hp, hfirst⟩
    obtain ⟨before, after, hsplit⟩ := List.append_of_mem (mem_keyedPlaces.mpr hp)
    refine ⟨before, after, hsplit, fun x hx => ?_⟩
    rw [hsplit, List.pairwise_append] at hsorted
    obtain ⟨key, q⟩ := x
    rw [bne_iff_ne]
    rintro rfl
    refine hfirst q (mem_keyedPlaces.mp ?_) (hsorted.2.2 _ hx _ List.mem_cons_self)
    rw [hsplit]
    exact List.mem_append_left _ hx

theorem find?_ofAnalyses_eq_none : (ofAnalyses analyses).find? path name = none ↔
    ∀ p, ¬ ExportedAt analyses (exportKey path name) p := by
  rw [find?, lookup_ofAnalyses, List.lookup_eq_none_iff]
  constructor
  · intro h p hp
    have := h _ (mem_keyedPlaces.mpr hp)
    simp at this
  · rintro h ⟨key, p⟩ hmem
    rw [bne_iff_ne]
    rintro rfl
    exact h p (mem_keyedPlaces.mp hmem)

end ExportIndex

/-! ## Re-exports -/

/-- The record that a file exports under a name because it passes it on. -/
def reexported? (index : ExportIndex) (analyses : List FileAnalysis) (steps : Nat) (path name : String) :
    Option Place :=
  (analysisOf? analyses path).bind fun a => a.imports.findSome? fun b =>
    match b.reexport, b.target with
    | true, some target => b.specifiers.findSome? fun s =>
      (s.passesOn? name).bind (lookupExport index analyses steps target)
    | _, _ => none

theorem lookupExport_succ (index : ExportIndex) (analyses : List FileAnalysis) (steps : Nat)
    (path name : String) : lookupExport index analyses (steps + 1) path name =
      (index.find? path name).or (reexported? index analyses steps path name) := by
  rw [lookupExport, reexported?]
  cases index.find? path name with
  | some p => rfl
  | none =>
    cases analysisOf? analyses path with
    | none => rfl
    | some a =>
      simp only [Option.none_or, Option.bind_some]
      congr 1
      funext b
      cases b.reexport with
      | false => rfl
      | true =>
        cases b.target with
        | none => rfl
        | some target =>
          simp only
          congr 1
          funext s
          cases s.passesOn? name <;> rfl

end CodeAtlas
