import CodeAtlas.Proofs.EdgeStore

/-!
# What a history of writes leaves in an edge store

Each key has one edge, in the place of its first write, and the edge is settled by the writes to its
key alone (`upsertAll_of_writes`): the first of them, the first confidence and the first reason that
counts.
-/

namespace CodeAtlas

/-! ## The writes to one key -/

/-- The reason that the writes to one key leave: an empty one counts in the first write only. -/
def settledReason (first : Edge) (later : List Edge) : Option String :=
  first.reason.or ((later.filterMap (·.reason)).find? (· ≠ ""))

structure Edge.SettledBy (e : Edge) (writes : List Edge) : Prop where
  first : ∃ first later, writes = first :: later ∧ e.source = first.source ∧ e.target = first.target ∧
    e.kind = first.kind ∧ e.provenance = first.provenance ∧ e.reason = settledReason first later
  confidence : e.confidence = writes.findSome? (·.confidence)

theorem Edge.SettledBy.single (e : Edge) : e.SettledBy [e] where
  first := ⟨e, [], rfl, rfl, rfl, rfl, rfl, by simp [settledReason]⟩
  confidence := by cases h : e.confidence <;> simp [h]

theorem settledReason_append (first : Edge) (later : List Edge) (e : Edge) :
    settledReason first (later ++ [e]) =
      (settledReason first later).or (e.reason.filter (!·.isEmpty)) := by
  have hlast : ([e].filterMap (·.reason)).find? (· ≠ "") = e.reason.filter (!·.isEmpty) := by
    cases h : e.reason with
    | none => simp [h]
    | some t => by_cases ht : t = "" <;> simp [h, ht, Option.filter]
  unfold settledReason
  rw [List.filterMap_append, List.find?_append, hlast, Option.or_assoc]

theorem Edge.SettledBy.fill {old : Edge} {writes : List Edge} (h : old.SettledBy writes) (e : Edge) :
    (old.fill e).SettledBy (writes ++ [e]) where
  first := by
    obtain ⟨first, later, rfl, hsource, htarget, hkind, hprovenance, hreason⟩ := h.first
    refine ⟨first, later ++ [e], rfl, hsource, htarget, hkind, hprovenance, ?_⟩
    rw [settledReason_append, ← hreason]
    rfl
  confidence := by
    have hlast : [e].findSome? (·.confidence) = e.confidence := by
      cases h : e.confidence <;> simp [h]
    rw [List.findSome?_append, ← h.confidence, hlast]
    rfl

namespace EdgeStore

/-! ## Histories -/

theorem eraseDups_append_singleton (keys : List String) (key : String) : (keys ++ [key]).eraseDups =
    if key ∈ keys then keys.eraseDups else keys.eraseDups ++ [key] := by
  rw [List.eraseDups_append]
  by_cases h : key ∈ keys
  · simp [List.removeAll, h]
  · simp [List.removeAll, h, List.eraseDups_cons]

structure Reflects (s : EdgeStore) (past : List Edge) : Prop where
  keys : s.keys = (past.map Edge.key).eraseDups
  settled : ∀ e ∈ s.edges, e.SettledBy (past.filter (·.key == e.key))

theorem Reflects.empty : Reflects {} [] where
  keys := rfl
  settled := by simp

theorem Reflects.mem_keys {s : EdgeStore} {past : List Edge} (h : s.Reflects past) (key : String) :
    key ∈ s.keys ↔ key ∈ past.map Edge.key := by
  rw [h.keys, List.mem_eraseDups]

theorem Reflects.upsert {s : EdgeStore} {past : List Edge} (h : s.Reflects past) (e : Edge) :
    (s.upsert e).Reflects (past ++ [e]) := by
  by_cases hmem : e.key ∈ s.keys
  · -- the edge of this key takes the write in, the others have had no write
    have hpast := (h.mem_keys e.key).mp hmem
    constructor
    · rw [upsert_keys, if_pos hmem, h.keys, List.map_append, List.map_singleton,
        eraseDups_append_singleton, if_pos hpast]
    · rw [upsert_edges_of_mem hmem]
      intro e' he'
      obtain ⟨old, hold, rfl⟩ := List.mem_map.mp he'
      have hsettled := h.settled old hold
      by_cases hkey : old.key = e.key
      · have hfilled : (old.fill e).key = old.key := (old.fill_completes e).key_eq
        simp only [hkey, beq_self_eq_true, if_true]
        rw [hkey] at hfilled hsettled
        rw [hfilled, List.filter_append]
        simpa using hsettled.fill e
      · have hother : e.key ≠ old.key := fun heq => hkey heq.symm
        simpa [hkey, hother, List.filter_append] using hsettled
  · -- the write is the whole history of its key
    have hpast : e.key ∉ past.map Edge.key := fun hp => hmem ((h.mem_keys e.key).mpr hp)
    constructor
    · rw [upsert_keys, if_neg hmem, h.keys, List.map_append, List.map_singleton,
        eraseDups_append_singleton, if_neg hpast]
    · rw [upsert_edges_of_notMem hmem]
      intro e' he'
      rcases List.mem_append.mp he' with hold | hnew
      · have hother : e.key ≠ e'.key := by
          intro heq
          apply hmem
          rw [heq]
          exact List.mem_map_of_mem hold
        simpa [hother, List.filter_append] using h.settled e' hold
      · rw [List.mem_singleton.mp hnew, List.filter_append]
        have hnone : past.filter (·.key == e.key) = [] := by
          refine List.filter_eq_nil_iff.mpr fun w hw hkey => hpast ?_
          rw [← beq_iff_eq.mp hkey]
          exact List.mem_map_of_mem hw
        rw [hnone]
        simpa using Edge.SettledBy.single e

theorem Reflects.upsertAll {s : EdgeStore} {past : List Edge} (h : s.Reflects past) (es : List Edge) :
    (s.upsertAll es).Reflects (past ++ es) := by
  induction es generalizing s past with
  | nil => simpa [EdgeStore.upsertAll] using h
  | cons e es ih => simpa [upsertAll_cons] using ih (h.upsert e)

/-! ## What a key finds -/

theorem Reflects.find?_eq_none {s : EdgeStore} {past : List Edge} (h : s.Reflects past) {key : String}
    (hfound : s.find? key = none) : past.find? (·.key == key) = none := by
  rw [List.find?_eq_none]
  intro w hw hkey
  have hmem : key ∈ s.keys := by
    rw [h.mem_keys, ← beq_iff_eq.mp hkey]
    exact List.mem_map_of_mem hw
  rw [← contains_iff, contains, hfound] at hmem
  cases hmem

theorem Reflects.settled_of_find? {s : EdgeStore} {past : List Edge} (h : s.Reflects past) {key : String}
    {e : Edge} (hfound : s.find? key = some e) : e.SettledBy (past.filter (·.key == key)) := by
  have hkey : e.key = key := by simpa using List.find?_some hfound
  rw [← hkey]
  exact h.settled e (List.mem_of_find?_eq_some hfound)

/-! ## New edges -/

def createdBy (s : EdgeStore) : List Edge → List Bool
  | [] => []
  | e :: es => s.creates e :: (s.upsert e).createdBy es

theorem Reflects.creates_eq {s : EdgeStore} {past : List Edge} (h : s.Reflects past) (e : Edge) :
    s.creates e = decide (e.key ∉ past.map Edge.key) := by
  rw [creates, decide_not, Bool.not_inj_iff, Bool.eq_iff_iff, contains_iff, h.mem_keys,
    decide_eq_true_iff]

theorem Reflects.createdBy_getElem? {s : EdgeStore} {past : List Edge} (h : s.Reflects past)
    {es : List Edge} {i : Nat} {e : Edge} (hi : es[i]? = some e) :
    (s.createdBy es)[i]? = some (decide (e.key ∉ (past ++ es.take i).map Edge.key)) := by
  induction es generalizing s past i with
  | nil => simp at hi
  | cons w es ih =>
    cases i with
    | zero =>
      obtain rfl : w = e := by simpa using hi
      simp [createdBy, h.creates_eq w]
    | succ i => simpa [createdBy] using ih (h.upsert w) (by simpa using hi)

theorem upsert_size (s : EdgeStore) (e : Edge) :
    (s.upsert e).size = s.size + if s.creates e then 1 else 0 := by
  by_cases h : e.key ∈ s.keys
  · have hc := (contains_iff s e.key).mpr h
    simp [size, upsert_edges_of_mem h, creates, hc]
  · have hc : s.contains e.key = false := by
      rw [← Bool.not_eq_true, contains_iff]
      exact h
    simp [size, upsert_edges_of_notMem h, creates, hc]

theorem upsertAll_size (es : List Edge) : ∀ s : EdgeStore,
    (s.upsertAll es).size = s.size + (s.createdBy es).count true := by
  induction es with
  | nil => intro s; simp [upsertAll, createdBy]
  | cons e es ih =>
    intro s
    rw [upsertAll_cons, ih, upsert_size, createdBy, List.count_cons]
    cases s.creates e with
    | true => simp only [if_true, beq_self_eq_true]; omega
    | false => simp

/-- The edges of an empty store after any writes: one for each key, in the order of first writes, each
settled by the writes to its key. A write makes a new edge exactly if it is the first to its key, and
there are as many edges as writes that did. -/
theorem upsertAll_of_writes (writes : List Edge) :
    let store := ({} : EdgeStore).upsertAll writes
    store.edges.map Edge.key = (writes.map Edge.key).eraseDups ∧
    (∀ e ∈ store.edges, e.SettledBy (writes.filter (·.key == e.key))) ∧
    (∀ i e, writes[i]? = some e →
      (({} : EdgeStore).createdBy writes)[i]? = some (decide (e.key ∉ (writes.take i).map Edge.key))) ∧
    store.size = (({} : EdgeStore).createdBy writes).count true := by
  intro store
  have hstore : store.Reflects writes := by simpa using Reflects.empty.upsertAll writes
  refine ⟨hstore.keys, hstore.settled, ?_, ?_⟩
  · intro i e hi
    simpa using Reflects.empty.createdBy_getElem? hi
  · simpa [size] using upsertAll_size writes {}

def alternatingWrites : List Edge :=
  [{ source := "a", target := "b", kind := "imports" },
    { source := "c", target := "d", kind := "invokes", reason := some "" },
    { source := "a", target := "b", kind := "invokes", reason := some "" },
    { source := "c", target := "d", kind := "imports", provenance := .llm, reason := some "late" },
    { source := "a", target := "b", kind := "invokes", confidence := some .high, reason := some "seen" }]

theorem upsertAll_of_alternating_writes :
    let store := ({} : EdgeStore).upsertAll alternatingWrites
    store.edges.map Edge.key = ["a->b", "c->d"] ∧ store.size = 2 ∧
    (({} : EdgeStore).createdBy alternatingWrites)[2]? = some false ∧
    ∀ e ∈ store.edges, e.key = "a->b" → e.kind = "imports" ∧ e.confidence = some .high ∧
      e.reason = some "seen" := by
  intro store
  obtain ⟨hkeys, hsettled, hcreated, hsize⟩ := upsertAll_of_writes alternatingWrites
  refine ⟨hkeys.trans (by decide +kernel), hsize.trans (by decide +kernel),
    (hcreated 2 _ rfl).trans (by decide +kernel), fun e he hkey => ?_⟩
  have hwrites := hsettled e he
  rw [hkey] at hwrites
  have hfilter : alternatingWrites.filter (·.key == "a->b") =
      [alternatingWrites[0], alternatingWrites[2], alternatingWrites[4]] := by decide +kernel
  rw [hfilter] at hwrites
  obtain ⟨first, later, hsplit, -, -, hkind, -, hreason⟩ := hwrites.first
  obtain ⟨rfl, rfl⟩ := List.cons.inj hsplit
  exact ⟨hkind, hwrites.confidence, hreason.trans (by decide +kernel)⟩

end EdgeStore

end CodeAtlas
