import CodeAtlas.Inference.Merge
import Mathlib.Data.List.Forall2

/-!
# What writes do to an edge store

Keys stay distinct, edges keep their places, and an edge that is there already can only gain a
confidence or a reason. A list of writes therefore extends the list of edges (`Extends`): the old
edges come first, completed at most, and the edges behind them are new.
-/

namespace CodeAtlas

/-! ## Completing an edge -/

/-- The edge `new` is `old`, where at most a confidence or a reason that was missing is there now. -/
structure Edge.Completes (new old : Edge) : Prop where
  source : new.source = old.source
  target : new.target = old.target
  kind : new.kind = old.kind
  provenance : new.provenance = old.provenance
  confidence : old.confidence = none ∨ new.confidence = old.confidence
  reason : old.reason = none ∨ new.reason = old.reason

theorem Edge.Completes.refl (e : Edge) : e.Completes e :=
  ⟨rfl, rfl, rfl, rfl, .inr rfl, .inr rfl⟩

theorem Edge.Completes.trans {a b c : Edge} (h₁ : c.Completes b) (h₂ : b.Completes a) :
    c.Completes a := by
  refine ⟨h₁.source.trans h₂.source, h₁.target.trans h₂.target, h₁.kind.trans h₂.kind,
    h₁.provenance.trans h₂.provenance, ?_, ?_⟩
  · rcases h₂.confidence with h | h
    · exact .inl h
    · rw [← h]; exact h₁.confidence
  · rcases h₂.reason with h | h
    · exact .inl h
    · rw [← h]; exact h₁.reason

theorem Edge.Completes.key_eq {a b : Edge} (h : b.Completes a) : b.key = a.key := by
  rw [Edge.key, Edge.key, h.source, h.target]

theorem Edge.fill_completes (old new : Edge) : (old.fill new).Completes old := by
  refine ⟨rfl, rfl, rfl, rfl, ?_, ?_⟩
  · cases h : old.confidence with
    | none => exact .inl rfl
    | some c => right; simp [Edge.fill, h]
  · cases h : old.reason with
    | none => exact .inl rfl
    | some t => right; simp [Edge.fill, h]

/-! ## Extending a list of edges -/

/-- The edges of `before` come first and in order, each completed at most; those behind them have
the property. -/
def Extends (P : Edge → Prop) (before after : List Edge) : Prop :=
  ∃ kept added, after = kept ++ added ∧
    List.Forall₂ (fun old new => Edge.Completes new old) before kept ∧ ∀ e ∈ added, P e

theorem forall₂_completes_trans {as bs cs : List Edge}
    (h₁ : List.Forall₂ (fun old new => Edge.Completes new old) as bs)
    (h₂ : List.Forall₂ (fun old new => Edge.Completes new old) bs cs) :
    List.Forall₂ (fun old new => Edge.Completes new old) as cs := by
  induction h₁ generalizing cs with
  | nil => exact h₂
  | cons hab _ ih =>
    obtain ⟨c, cs', hbc, hrest, rfl⟩ := List.forall₂_cons_left_iff.mp h₂
    exact .cons (hbc.trans hab) (ih hrest)

theorem forall₂_completes_all {P : Edge → Prop} (hP : ∀ a b, b.Completes a → P a → P b)
    {as bs : List Edge} (h : List.Forall₂ (fun old new => Edge.Completes new old) as bs)
    (has : ∀ e ∈ as, P e) : ∀ e ∈ bs, P e := by
  induction h with
  | nil => exact has
  | cons hab _ ih =>
    intro e he
    rcases List.mem_cons.mp he with rfl | he
    · exact hP _ _ hab (has _ (by simp))
    · exact ih (fun e he => has e (by simp [he])) e he

theorem Extends.refl (P : Edge → Prop) (es : List Edge) : Extends P es es :=
  ⟨es, [], by simp, List.forall₂_same.mpr fun e _ => .refl e, by simp⟩

theorem Extends.trans {P : Edge → Prop} (hP : ∀ a b, b.Completes a → P a → P b)
    {as bs cs : List Edge} (h₁ : Extends P as bs) (h₂ : Extends P bs cs) : Extends P as cs := by
  obtain ⟨kept, added, rfl, hkept, hadded⟩ := h₁
  obtain ⟨kept', added', rfl, hkept', hadded'⟩ := h₂
  -- What completes `kept ++ added` splits where `kept` ends.
  have hfront := List.forall₂_take kept.length hkept'
  have hback := List.forall₂_drop kept.length hkept'
  rw [List.take_left] at hfront
  rw [List.drop_left] at hback
  refine ⟨kept'.take kept.length, kept'.drop kept.length ++ added', ?_,
    forall₂_completes_trans hkept hfront, ?_⟩
  · rw [← List.append_assoc, List.take_append_drop]
  · intro e he
    rcases List.mem_append.mp he with he | he
    · exact forall₂_completes_all hP hback hadded e he
    · exact hadded' e he

theorem Extends.all {P Q : Edge → Prop} (hQ : ∀ a b, b.Completes a → Q a → Q b)
    {before after : List Edge} (h : Extends P before after) (hb : ∀ e ∈ before, Q e)
    (hPQ : ∀ e, P e → Q e) : ∀ e ∈ after, Q e := by
  obtain ⟨kept, added, rfl, hkept, hadded⟩ := h
  intro e he
  rcases List.mem_append.mp he with he | he
  · exact forall₂_completes_all hQ hkept hb e he
  · exact hPQ e (hadded e he)

namespace EdgeStore

/-! ## Keys -/

def keys (s : EdgeStore) : List String :=
  s.edges.map Edge.key

theorem contains_iff (s : EdgeStore) (key : String) : s.contains key = true ↔ key ∈ s.keys := by
  simp [contains, find?, keys]

theorem upsert_edges_of_mem {s : EdgeStore} {e : Edge} (h : e.key ∈ s.keys) :
    (s.upsert e).edges = s.edges.map fun old => if old.key == e.key then old.fill e else old := by
  rw [upsert, if_pos ((contains_iff s e.key).mpr h)]

theorem upsert_edges_of_notMem {s : EdgeStore} {e : Edge} (h : e.key ∉ s.keys) :
    (s.upsert e).edges = s.edges ++ [e] := by
  rw [upsert, if_neg fun hc => h ((contains_iff s e.key).mp hc)]

theorem upsert_keys (s : EdgeStore) (e : Edge) :
    (s.upsert e).keys = if e.key ∈ s.keys then s.keys else s.keys ++ [e.key] := by
  split
  · rename_i h
    rw [keys, upsert_edges_of_mem h, List.map_map, keys]
    apply List.map_congr_left
    intro old _
    simp only [Function.comp_apply]
    split
    · exact (Edge.fill_completes old e).key_eq
    · rfl
  · rename_i h
    rw [keys, upsert_edges_of_notMem h, List.map_append]
    rfl

theorem mem_upsert_keys {s : EdgeStore} {e : Edge} {key : String} :
    key ∈ (s.upsert e).keys ↔ key ∈ s.keys ∨ key = e.key := by
  rw [upsert_keys]
  split
  · rename_i h
    exact ⟨.inl, fun hk => hk.elim id fun hk => hk ▸ h⟩
  · simp

theorem upsert_keys_nodup {s : EdgeStore} (h : s.keys.Nodup) (e : Edge) :
    (s.upsert e).keys.Nodup := by
  rw [upsert_keys]
  split
  · exact h
  · rename_i hk
    refine List.nodup_append.mpr ⟨h, by simp, ?_⟩
    intro a ha b hb hab
    rw [List.mem_singleton.mp hb] at hab
    exact hk (hab ▸ ha)

theorem upsertAll_cons (s : EdgeStore) (e : Edge) (es : List Edge) :
    s.upsertAll (e :: es) = (s.upsert e).upsertAll es := rfl

theorem mem_upsertAll_keys (es : List Edge) (key : String) : ∀ s : EdgeStore,
    key ∈ (s.upsertAll es).keys ↔ key ∈ s.keys ∨ key ∈ es.map Edge.key := by
  induction es with
  | nil => intro s; simp [upsertAll]
  | cons e es ih =>
    intro s
    rw [upsertAll_cons, ih, mem_upsert_keys, List.map_cons, List.mem_cons, or_assoc]

theorem upsertAll_keys_nodup (es : List Edge) : ∀ {s : EdgeStore}, s.keys.Nodup →
    (s.upsertAll es).keys.Nodup := by
  induction es with
  | nil => intro s h; exact h
  | cons e es ih => intro s h; exact ih (upsert_keys_nodup h e)

/-! ## Edges -/

theorem upsert_extends {P : Edge → Prop} (s : EdgeStore) {e : Edge} (he : P e) :
    Extends P s.edges (s.upsert e).edges := by
  by_cases h : e.key ∈ s.keys
  · rw [upsert_edges_of_mem h]
    refine ⟨_, [], (List.append_nil _).symm, ?_, by simp⟩
    rw [List.forall₂_map_right_iff, List.forall₂_same]
    intro old _
    split
    · exact old.fill_completes e
    · exact .refl old
  · rw [upsert_edges_of_notMem h]
    exact ⟨s.edges, [e], rfl, List.forall₂_same.mpr fun e _ => .refl e, by simpa using he⟩

theorem upsertAll_extends {P : Edge → Prop} (hP : ∀ a b, b.Completes a → P a → P b)
    (es : List Edge) : ∀ s : EdgeStore, (∀ e ∈ es, P e) → Extends P s.edges (s.upsertAll es).edges := by
  induction es with
  | nil => intro s _; exact .refl P s.edges
  | cons e es ih =>
    intro s h
    exact (upsert_extends s (h e (by simp))).trans hP
      (ih (s.upsert e) fun e' he' => h e' (by simp [he']))

theorem upsertAll_all {P : Edge → Prop} (hP : ∀ a b, b.Completes a → P a → P b) {s : EdgeStore}
    {es : List Edge} (hs : ∀ e ∈ s.edges, P e) (hes : ∀ e ∈ es, P e) :
    ∀ e ∈ (s.upsertAll es).edges, P e :=
  (upsertAll_extends hP es s hes).all hP hs fun _ h => h

theorem mergeAll_fst (es : List Edge) : ∀ s : EdgeStore, (s.mergeAll es).1 = s.upsertAll es := by
  induction es with
  | nil => intro s; rfl
  | cons e es ih => intro s; exact ih (s.upsert e)

end EdgeStore

end CodeAtlas
