import CodeAtlas.Proofs.EdgeHistory
import CodeAtlas.Proofs.Enrichment

/-!
# Merging the same proposals again

Once a store has taken a write in, no later write makes it miss anything of it (`Absorbs.upsert`). So
the proposals of a merge are all taken in when the merge ends, in whatever order they came, and a second
merge of them changes nothing (`merge_again`).
-/

namespace CodeAtlas

/-! ## Edges that miss nothing of a write -/

/-- What an edge must have for a write to fill nothing in: an empty reason is not filled in. -/
theorem Edge.fill_eq_self_iff (old new : Edge) : old.fill new = old ↔
    (old.confidence = none → new.confidence = none) ∧
    (old.reason = none → ∀ t, new.reason = some t → t = "") := by
  have hparts : old.fill new = old ↔ old.confidence.or new.confidence = old.confidence ∧
      old.reason.or (new.reason.filter (!·.isEmpty)) = old.reason := by
    cases old
    simp [Edge.fill]
  rw [hparts]
  apply and_congr
  · cases old.confidence <;> simp
  · cases old.reason <;> simp [Option.filter_eq_none_iff]

theorem Edge.fill_self (e : Edge) : e.fill e = e := by
  rw [Edge.fill_eq_self_iff]
  constructor
  · intro h
    exact h
  · intro h t ht
    rw [h] at ht
    cases ht

theorem Edge.fill_fill_self (old new : Edge) : (old.fill new).fill new = old.fill new := by
  rw [Edge.fill_eq_self_iff]
  constructor
  · intro h
    exact (Option.or_eq_none_iff.mp h).2
  · intro h t ht
    have hreason := (Option.or_eq_none_iff.mp h).2
    simpa using (Option.filter_eq_none_iff.mp hreason) t ht

/-- Filling in more keeps what is there. -/
theorem Edge.fill_fill_of_eq {old e : Edge} (h : old.fill e = old) (w : Edge) :
    (old.fill w).fill e = old.fill w := by
  rw [Edge.fill_eq_self_iff] at h ⊢
  constructor
  · intro hw
    exact h.1 (Option.or_eq_none_iff.mp hw).1
  · intro hw
    exact h.2 (Option.or_eq_none_iff.mp hw).1

namespace EdgeStore

/-! ## Stores that have taken a write in -/

structure Absorbs (s : EdgeStore) (e : Edge) : Prop where
  key : e.key ∈ s.keys
  filled : ∀ old ∈ s.edges, old.key = e.key → old.fill e = old

theorem Absorbs.upsert_eq {s : EdgeStore} {e : Edge} (h : s.Absorbs e) : s.upsert e = s := by
  have hedges : (s.upsert e).edges = s.edges := by
    rw [upsert_edges_of_mem h.key]
    conv_rhs => rw [← List.map_id s.edges]
    apply List.map_congr_left
    intro old hold
    by_cases hkey : old.key = e.key
    · simp [hkey, h.filled old hold hkey]
    · simp [hkey]
  exact congrArg EdgeStore.mk hedges

theorem Absorbs.creates_eq {s : EdgeStore} {e : Edge} (h : s.Absorbs e) : s.creates e = false := by
  simp [creates, (contains_iff s e.key).mpr h.key]

theorem upsert_absorbs (s : EdgeStore) (e : Edge) : (s.upsert e).Absorbs e := by
  refine ⟨mem_upsert_keys.mpr (.inr rfl), ?_⟩
  by_cases hmem : e.key ∈ s.keys
  · rw [upsert_edges_of_mem hmem]
    intro old hold hkey
    obtain ⟨before, -, rfl⟩ := List.mem_map.mp hold
    by_cases hbefore : before.key = e.key
    · simp [hbefore, Edge.fill_fill_self]
    · simp [hbefore] at hkey
  · rw [upsert_edges_of_notMem hmem]
    intro old hold hkey
    rcases List.mem_append.mp hold with hold | hold
    · exact absurd (hkey ▸ List.mem_map_of_mem hold) hmem
    · rw [List.mem_singleton.mp hold, Edge.fill_self]

theorem Absorbs.upsert {s : EdgeStore} {e : Edge} (h : s.Absorbs e) (w : Edge) :
    (s.upsert w).Absorbs e := by
  refine ⟨mem_upsert_keys.mpr (.inl h.key), ?_⟩
  by_cases hmem : w.key ∈ s.keys
  · rw [upsert_edges_of_mem hmem]
    intro old hold hkey
    obtain ⟨before, hbefore, rfl⟩ := List.mem_map.mp hold
    by_cases hw : before.key = w.key
    · simp only [hw, beq_self_eq_true, if_true] at hkey ⊢
      rw [(before.fill_completes w).key_eq] at hkey
      exact Edge.fill_fill_of_eq (h.filled before hbefore hkey) w
    · simp only [beq_iff_eq, hw, if_false] at hkey ⊢
      exact h.filled before hbefore hkey
  · rw [upsert_edges_of_notMem hmem]
    intro old hold hkey
    rcases List.mem_append.mp hold with hold | hold
    · exact h.filled old hold hkey
    · -- a new edge has a new key
      rw [List.mem_singleton.mp hold] at hkey
      exact absurd (hkey ▸ h.key) hmem

theorem Absorbs.upsertAll (es : List Edge) {e : Edge} : ∀ {s : EdgeStore}, s.Absorbs e →
    (s.upsertAll es).Absorbs e := by
  induction es with
  | nil => intro s h; exact h
  | cons w es ih => intro s h; exact ih (h.upsert w)

theorem upsertAll_absorbs (es : List Edge) : ∀ s : EdgeStore, ∀ e ∈ es,
    (s.upsertAll es).Absorbs e := by
  induction es with
  | nil => simp
  | cons w es ih =>
    intro s e he
    rw [upsertAll_cons]
    rcases List.mem_cons.mp he with rfl | he
    · exact (upsert_absorbs s e).upsertAll es
    · exact ih (s.upsert w) e he

/-! ## Counting merges -/

theorem mergeAll_of_absorbs {s : EdgeStore} {es : List Edge} (h : ∀ e ∈ es, s.Absorbs e) :
    s.mergeAll es = (s, 0) := by
  induction es with
  | nil => rfl
  | cons e es ih =>
    have he := h e List.mem_cons_self
    rw [mergeAll, he.upsert_eq, he.creates_eq, ih fun w hw => h w (List.mem_cons_of_mem _ hw)]
    rfl

theorem mergeAll_snd (es : List Edge) : ∀ s : EdgeStore,
    (s.mergeAll es).2 = (s.createdBy es).count true := by
  induction es with
  | nil => intro s; rfl
  | cons e es ih =>
    intro s
    have hcons : (s.mergeAll (e :: es)).2 =
        (if s.creates e then 1 else 0) + ((s.upsert e).mergeAll es).2 := rfl
    rw [hcons, ih, createdBy, List.count_cons]
    cases s.creates e with
    | true => simp [Nat.add_comm]
    | false => simp

theorem mergeAll_size (s : EdgeStore) (es : List Edge) :
    (s.mergeAll es).1.size = s.size + (s.mergeAll es).2 := by
  rw [mergeAll_fst, mergeAll_snd, upsertAll_size]

theorem mergeAll_again (s : EdgeStore) (es : List Edge) :
    (s.mergeAll es).1.mergeAll es = ((s.mergeAll es).1, 0) := by
  apply mergeAll_of_absorbs
  rw [mergeAll_fst]
  exact upsertAll_absorbs es s

end EdgeStore

namespace Assembly

/-- A second merge of the same proposals adds nothing and leaves the graphs as they were; the first one
counts by how much the two stores have grown. -/
theorem merge_again (a : Assembly) (p : Proposals) :
    let first := a.merge p
    let second := first.assembly.merge p
    (second.addedFiles, second.addedFunctions) = (0, 0) ∧
    second.assembly = first.assembly ∧
    first.assembly.fileEdges.size = a.fileEdges.size + first.addedFiles ∧
    first.assembly.functionEdges.size = a.functionEdges.size + first.addedFunctions := by
  intro first second
  let files := p.files.filterMap (proposedFileEdge? a.shownFiles)
  let calls := p.functions.filterMap (proposedCallEdge? a.symbols)
  -- nodes and analyses stay, so the proposals mean the same edges to the second merge
  have hfiles : first.assembly.fileEdges.mergeAll files = (first.assembly.fileEdges, 0) :=
    a.fileEdges.mergeAll_again files
  have hcalls : first.assembly.functionEdges.mergeAll calls = (first.assembly.functionEdges, 0) :=
    a.functionEdges.mergeAll_again calls
  have hsecond : second = ⟨first.assembly, 0, 0⟩ := by
    change Merge.mk { first.assembly with
        fileEdges := (first.assembly.fileEdges.mergeAll files).1
        functionEdges := (first.assembly.functionEdges.mergeAll calls).1 }
      (first.assembly.fileEdges.mergeAll files).2
      (first.assembly.functionEdges.mergeAll calls).2 = _
    rw [hfiles, hcalls]
  rw [hsecond]
  exact ⟨rfl, rfl, a.fileEdges.mergeAll_size files, a.functionEdges.mergeAll_size calls⟩

end Assembly

end CodeAtlas
