import CodeAtlas.Proofs.EdgeHistory

/-!
# Edges by their ends

A key is the text of both ends with an arrow between them. Where an end holds an arrow itself, the
same text can be cut at another place, and the edge is found by ends that were never written
(`get?_of_arrow_in_target`). A history keeps its ends apart exactly if no end of a write holds an arrow
(`get?_upsertAll`).
-/

namespace CodeAtlas

/-! ## Where a key can be cut -/

/-- The ends `source'`, `target'` are cut at a later arrow of the same text. -/
def CutLater (source target source' target' : String) : Prop :=
  ∃ middle, source' = edgeKey source middle ∧ target = edgeKey middle target'

theorem cut_chars {a b a' b' rest : List Char} (ha : a' = a ++ rest)
    (hb : '-' :: '>' :: b = rest ++ '-' :: '>' :: b') :
    (a = a' ∧ b = b') ∨ ∃ m, a' = a ++ '-' :: '>' :: m ∧ b = m ++ '-' :: '>' :: b' := by
  cases rest with
  | nil =>
    left
    simpa [ha] using hb
  | cons x rest =>
    right
    simp only [List.cons_append, List.cons.injEq] at hb
    obtain ⟨hx, hb⟩ := hb
    cases rest with
    | nil => simp at hb
    | cons y m =>
      simp only [List.cons_append, List.cons.injEq] at hb
      obtain ⟨hy, hb⟩ := hb
      refine ⟨m, ?_, hb⟩
      rw [ha, hx, hy]

theorem toList_edgeKey (source target : String) :
    (edgeKey source target).toList = source.toList ++ '-' :: '>' :: target.toList := by
  simp [edgeKey]

theorem edgeKey_eq_iff (s t s' t' : String) : edgeKey s t = edgeKey s' t' ↔
    (s = s' ∧ t = t') ∨ CutLater s t s' t' ∨ CutLater s' t' s t := by
  simp only [CutLater, ← String.toList_inj, toList_edgeKey]
  constructor
  · intro h
    rcases List.append_eq_append_iff.mp h with ⟨rest, ha, hb⟩ | ⟨rest, ha, hb⟩
    · rcases cut_chars ha hb with heq | ⟨m, hs, ht⟩
      · exact .inl heq
      · exact .inr (.inl ⟨String.ofList m, by simpa using hs, by simpa using ht⟩)
    · rcases cut_chars ha hb with heq | ⟨m, hs, ht⟩
      · exact .inl ⟨heq.1.symm, heq.2.symm⟩
      · exact .inr (.inr ⟨String.ofList m, by simpa using hs, by simpa using ht⟩)
  · intro h
    rcases h with ⟨hs, ht⟩ | ⟨m, hs, ht⟩ | ⟨m, hs, ht⟩
    · rw [hs, ht]
    · simp [hs, ht]
    · simp [hs, ht]

def HoldsArrow (s : String) : Prop :=
  ∃ before after, s = before ++ "->" ++ after

theorem CutLater.holdsArrow {s t s' t' : String} (h : CutLater s t s' t') :
    HoldsArrow s' ∧ HoldsArrow t := by
  obtain ⟨m, hs, ht⟩ := h
  exact ⟨⟨s, m, hs⟩, ⟨m, t', ht⟩⟩

theorem CutLater.ne {s t s' t' : String} (h : CutLater s t s' t') : s ≠ s' := by
  obtain ⟨m, hs, -⟩ := h
  intro heq
  have hlength := congrArg (fun x => x.toList.length) (heq.trans hs)
  simp [toList_edgeKey] at hlength

/-- An end with an arrow gives the key another place to be cut at. -/
theorem exists_other_cut {s t : String} (h : HoldsArrow s ∨ HoldsArrow t) :
    ∃ s' t', edgeKey s' t' = edgeKey s t ∧ s' ≠ s := by
  rcases h with ⟨a, b, rfl⟩ | ⟨a, b, rfl⟩
  · have hcut : CutLater a (edgeKey b t) (edgeKey a b) t := ⟨b, rfl, rfl⟩
    exact ⟨a, edgeKey b t, (edgeKey_eq_iff _ _ _ _).mpr (.inr (.inl hcut)), hcut.ne⟩
  · have hcut : CutLater s (edgeKey a b) (edgeKey s a) b := ⟨a, rfl, rfl⟩
    exact ⟨edgeKey s a, b, (edgeKey_eq_iff _ _ _ _).mpr (.inr (.inr hcut)), hcut.ne.symm⟩

/-! ## What is found by two ends -/

def Edge.ends (e : Edge) : String × String :=
  (e.source, e.target)

namespace EdgeStore

/-- The edge that is found has the ends of the first write to its key. -/
theorem Reflects.get?_ends {s : EdgeStore} {past : List Edge} (h : s.Reflects past)
    (source target : String) : (s.get? source target).map Edge.ends =
      (past.find? (·.key == edgeKey source target)).map Edge.ends := by
  unfold get?
  cases hfound : s.find? (edgeKey source target) with
  | none => rw [h.find?_eq_none hfound]
  | some e =>
    obtain ⟨first, later, hwrites, hsource, htarget, -⟩ := (h.settled_of_find? hfound).first
    have hfirst : past.find? (·.key == edgeKey source target) = some first := by
      rw [← List.head?_filter, hwrites]
      rfl
    rw [hfirst]
    simp [Edge.ends, hsource, htarget]

/-- Two ends find an edge exactly if they were written, and then the edge that has them. -/
structure KeyedAt (s : EdgeStore) (writes : List Edge) (source target : String) : Prop where
  found_iff : (s.get? source target).isSome = true ↔ ∃ w ∈ writes, w.ends = (source, target)
  ends : ∀ e, s.get? source target = some e → e.ends = (source, target)

structure KeyedByEnds (s : EdgeStore) (writes : List Edge) : Prop where
  everywhere : ∀ source target, s.KeyedAt writes source target
  /-- Writes with different ends have different edges. -/
  apart : ∀ w ∈ writes, ∀ w' ∈ writes, w.ends ≠ w'.ends →
    s.get? w.source w.target ≠ s.get? w'.source w'.target

/-- Ends with one key find one edge, and it cannot have the ends of both. -/
theorem no_arrow_of_keyedAt {s : EdgeStore} {writes : List Edge}
    (hat : ∀ source target, s.KeyedAt writes source target) {w : Edge} (hw : w ∈ writes) :
    ¬ HoldsArrow w.source ∧ ¬ HoldsArrow w.target := by
  rw [← not_or]
  intro harrow
  obtain ⟨source, target, hkey, hne⟩ := exists_other_cut harrow
  obtain ⟨e, he⟩ := Option.isSome_iff_exists.mp ((hat w.source w.target).found_iff.mpr ⟨w, hw, rfl⟩)
  have hother : s.get? source target = some e := by
    rw [get?, hkey]
    exact he
  have hends := ((hat source target).ends e hother).symm.trans ((hat w.source w.target).ends e he)
  exact hne (Prod.mk.inj hends).1

section
variable {s : EdgeStore} {writes : List Edge} (h : s.Reflects writes)
include h

theorem Reflects.keyedAt_iff (source target : String) : s.KeyedAt writes source target ↔
    ∀ w, writes.find? (·.key == edgeKey source target) = some w → w.ends = (source, target) := by
  have hends := h.get?_ends source target
  constructor
  · intro hat w hw
    rw [hw] at hends
    obtain ⟨e, he, hew⟩ := Option.map_eq_some_iff.mp hends
    rw [← hew]
    exact hat.ends e he
  · intro hfirst
    refine ⟨⟨?_, ?_⟩, ?_⟩
    · intro hsome
      obtain ⟨e, he⟩ := Option.isSome_iff_exists.mp hsome
      rw [he] at hends
      obtain ⟨w, hw, -⟩ := Option.map_eq_some_iff.mp hends.symm
      exact ⟨w, List.mem_of_find?_eq_some hw, hfirst w hw⟩
    · intro hwritten
      obtain ⟨w, hw, hwends⟩ := hwritten
      obtain ⟨hsource, htarget⟩ := Prod.mk.inj hwends
      have hisSome : (writes.find? (·.key == edgeKey source target)).isSome = true := by
        rw [List.find?_isSome]
        exact ⟨w, hw, by simp [Edge.key, hsource, htarget]⟩
      rw [← Option.isSome_map, hends, Option.isSome_map]
      exact hisSome
    · intro e he
      rw [he] at hends
      obtain ⟨w, hw, hwe⟩ := Option.map_eq_some_iff.mp hends.symm
      rw [← hwe]
      exact hfirst w hw

theorem Reflects.keyedAt_of_no_arrow
    (hplain : ∀ w ∈ writes, ¬ HoldsArrow w.source ∧ ¬ HoldsArrow w.target)
    (source target : String) : s.KeyedAt writes source target := by
  rw [h.keyedAt_iff]
  intro w hw
  have hkey : w.key = edgeKey source target := by simpa using List.find?_some hw
  obtain ⟨hsource, htarget⟩ := hplain w (List.mem_of_find?_eq_some hw)
  rcases (edgeKey_eq_iff _ _ _ _).mp hkey with ⟨rfl, rfl⟩ | hcut | hcut
  · rfl
  · exact absurd hcut.holdsArrow.2 htarget
  · exact absurd hcut.holdsArrow.1 hsource

theorem Reflects.keyedByEnds_iff : s.KeyedByEnds writes ↔
    ∀ w ∈ writes, ¬ HoldsArrow w.source ∧ ¬ HoldsArrow w.target := by
  constructor
  · intro hkeyed w hw
    exact no_arrow_of_keyedAt hkeyed.everywhere hw
  · intro hplain
    have hat := h.keyedAt_of_no_arrow hplain
    refine ⟨hat, ?_⟩
    intro w hw w' hw' hne heq
    apply hne
    obtain ⟨e, he⟩ := Option.isSome_iff_exists.mp ((hat w.source w.target).found_iff.mpr ⟨w, hw, rfl⟩)
    have hends : e.ends = w.ends := (hat _ _).ends e he
    have hends' : e.ends = w'.ends := (hat _ _).ends e (heq ▸ he)
    exact hends.symm.trans hends'

end

/-- What two ends find after any writes to an empty store. Ends find the edge of the first write to
their key; they are served by the edge that was written with them exactly if that write had them; and a
history keeps all ends apart exactly if no end of a write holds an arrow. -/
theorem get?_upsertAll (writes : List Edge) :
    let store := ({} : EdgeStore).upsertAll writes
    (∀ source target, (store.get? source target).map Edge.ends =
      (writes.find? (·.key == edgeKey source target)).map Edge.ends) ∧
    (∀ source target, store.KeyedAt writes source target ↔
      ∀ w, writes.find? (·.key == edgeKey source target) = some w → w.ends = (source, target)) ∧
    (store.KeyedByEnds writes ↔ ∀ w ∈ writes, ¬ HoldsArrow w.source ∧ ¬ HoldsArrow w.target) := by
  intro store
  have hstore : store.Reflects writes := by simpa using Reflects.empty.upsertAll writes
  exact ⟨hstore.get?_ends, hstore.keyedAt_iff, hstore.keyedByEnds_iff⟩

/-- Nothing was written with the ends `a->b` and `c`, but they find the edge from `a` to `b->c`; and a
write with them is lost in that edge. -/
theorem get?_of_arrow_in_target :
    let first : Edge := { source := "a", target := "b->c", kind := "imports" }
    let second : Edge := { source := "a->b", target := "c", kind := "imports" }
    (({} : EdgeStore).upsert first).get? "a->b" "c" = some first ∧
    ¬ (({} : EdgeStore).upsert first).KeyedAt [first] "a->b" "c" ∧
    (({} : EdgeStore).upsertAll [first, second]).edges = [first] := by
  intro first second
  have hget : (({} : EdgeStore).upsert first).get? "a->b" "c" = some first := by decide +kernel
  refine ⟨hget, ?_, by decide +kernel⟩
  intro hat
  have hends : first.ends = ("a->b", "c") := hat.ends first hget
  simp [Edge.ends, first] at hends

end EdgeStore

end CodeAtlas
