import CodeAtlas.Proofs.CacheHistory
import CodeAtlas.Proofs.Fingerprints

/-!
# Analyses that share a cache

Calls made one after the other take their reports from one cache. Whatever the clock says, a call is
answered by the report of a call that had the same message for its key: that of the same files, limit
and aliases, but for wildcards. The label of the root is not in the message.
-/

namespace CodeAtlas

/-! ## What is in a cache -/

namespace Cache

variable {α : Type} {c : Cache α} {now : Seconds} {key : String} {value : α} {e : CacheEntry α}

theorem mem_of_get (h : e ∈ (c.get now key).2.entries) : e ∈ c.entries := by
  unfold get at h
  split at h
  · exact h
  · split at h
    · exact List.mem_of_mem_filter h
    · exact h

theorem exists_of_get (h : (c.get now key).1 = some value) :
    ∃ e ∈ c.entries, e.key = key ∧ e.value = value := by
  unfold get at h
  split at h
  · cases h
  · next e hfind =>
    split at h
    · cases h
    · have hkey := List.find?_some hfind
      exact ⟨e, List.mem_of_find?_eq_some hfind, by simpa using hkey, Option.some.inj h⟩

theorem mem_of_put (h : e ∈ (c.put now key value).2.entries) :
    e = ⟨key, value, now⟩ ∨ e ∈ c.entries := by
  have hwrite := (evict_sublist _ _).subset h
  exact ((mem_write _ _ _).1 hwrite).imp_right And.left

end Cache

/-! ## Other values in the same places -/

section
variable {α β : Type} (f : α → β)

def CacheEntry.map (e : CacheEntry α) : CacheEntry β :=
  ⟨e.key, f e.value, e.insertedAt⟩

namespace Cache

def map (c : Cache α) : Cache β :=
  ⟨c.lifetime, c.capacity, c.entries.map (CacheEntry.map f)⟩

theorem get_map (c : Cache α) (now : Seconds) (key : String) :
    (c.map f).get now key = ((c.get now key).1.map f, (c.get now key).2.map f) := by
  have hfind : (c.map f).find? key = (c.find? key).map (CacheEntry.map f) := by
    simp [find?, map, List.find?_map, Function.comp_def, CacheEntry.map]
  unfold get
  rw [hfind]
  cases c.find? key with
  | none => rfl
  | some e =>
    have hexpired : (c.map f).isExpired now (e.map f) = c.isExpired now e := rfl
    have herase : (c.map f).erase key = (c.erase key).map f := by
      simp [erase, without, map, List.filter_map, Function.comp_def, CacheEntry.map]
    simp only [Option.map_some, hexpired, herase]
    split <;> rfl

theorem write_map (entries : List (CacheEntry α)) (e : CacheEntry α) :
    write (entries.map (CacheEntry.map f)) (e.map f) = (write entries e).map (CacheEntry.map f) := by
  have hany : (entries.map (CacheEntry.map f)).any (·.key == (e.map f).key)
      = entries.any (·.key == e.key) := by
    simp [List.any_map, Function.comp_def, CacheEntry.map]
  unfold write
  rw [hany]
  split
  · rw [List.map_map, List.map_map]
    refine List.map_congr_left fun old _ => ?_
    show (if (old.map f).key == (e.map f).key then e.map f else old.map f) = CacheEntry.map f _
    rw [apply_ite (CacheEntry.map f)]
    rfl
  · simp

theorem oldest?_map (entries : List (CacheEntry α)) :
    oldest? (entries.map (CacheEntry.map f)) = (oldest? entries).map (CacheEntry.map f) := by
  induction entries with
  | nil => rfl
  | cons e entries ih =>
    rw [List.map_cons, oldest?, oldest?, ih]
    cases oldest? entries with
    | none => rfl
    | some other =>
      show (if other.insertedAt.isBefore e.insertedAt then some (other.map f) else some (e.map f)) = _
      split <;> simp_all

theorem evict_map (capacity : Int) (entries : List (CacheEntry α)) :
    evict capacity (entries.map (CacheEntry.map f)) =
      ((evict capacity entries).1, (evict capacity entries).2.map (CacheEntry.map f)) := by
  fun_induction evict capacity entries with
  | case1 entries hroom =>
    rw [evict, if_pos (by rwa [List.length_map])]
  | case2 entries hfull hnone =>
    have hfull' : ¬ (([] : List (CacheEntry β)).length : Int) ≤ capacity := by
      rwa [oldest?_eq_none hnone] at hfull
    rw [oldest?_eq_none hnone, List.map_nil, evict, if_neg hfull']
    rfl
  | case3 entries hfull e hsome ih =>
    have hwithout : without (entries.map (CacheEntry.map f)) e.key =
        (without entries e.key).map (CacheEntry.map f) := by
      simp [without, List.filter_map, Function.comp_def, CacheEntry.map]
    rw [evict, if_neg (by rwa [List.length_map])]
    split
    · next hnone => simp [oldest?_map, hsome] at hnone
    · next e' hsome' =>
      obtain rfl : e.map f = e' := by simpa [oldest?_map, hsome] using hsome'
      exact (congrArg _ hwithout).trans ih

theorem put_map (c : Cache α) (now : Seconds) (key : String) (value : α) :
    (c.map f).put now key (f value) = ((c.put now key value).1, (c.put now key value).2.map f) := by
  have hwrite : write (c.entries.map (CacheEntry.map f)) ⟨key, f value, now⟩
      = (write c.entries ⟨key, value, now⟩).map (CacheEntry.map f) :=
    write_map f c.entries ⟨key, value, now⟩
  simp only [put, map, hwrite, evict_map]

end Cache

end

/-! ## Reports without a model -/

namespace AnalysisPlan

variable {p q : AnalysisPlan} {files files' : FileMap}

theorem run_report_of_plain (h : p.enriched = false) :
    (p.run files).report = reportOf (p.readings (p.targets files))
      (Enrichment.idle (p.assembly files (p.readings (p.targets files))) []) := by
  simp [run, enrichment, h]

theorem readings_eq_of_perm (hfiles : files.Perm files') (hnodup : files.paths.Nodup)
    (hcatalog : p.catalog = q.catalog) (hlimit : p.limit = q.limit) :
    p.readings (p.targets files) = q.readings (q.targets files') := by
  have hsorted : Fingerprint.byName files = Fingerprint.byName files' :=
    byName_eq_of_perm hfiles hnodup
  unfold readings targets
  rw [hsorted, hcatalog, hlimit]

theorem rootDirectory_mem (scanned : List String) :
    Assembly.rootDirectory ∈ Assembly.directories scanned := by
  rw [Assembly.directories, (sortedTexts_perm _).mem_iff]
  have run : ∀ found : List String, Assembly.rootDirectory ∈ found → Assembly.rootDirectory ∈
      scanned.foldl (fun found path => Assembly.climb found (Path.dirname path)) found := by
    induction scanned with
    | nil => exact fun _ h => h
    | cons path scanned ih => exact fun found h => ih _ (Assembly.subset_climb found _ h)
  exact run _ List.mem_cons_self

/-- The label of the root is shown. -/
theorem rootLabel_of_fileNodes (files files' : FileMap) (readings : List (String × Reading))
    (h : (p.assembly files readings).fileNodes = (q.assembly files' readings).fileNodes) :
    p.rootLabel = q.rootLabel := by
  have hnodes := List.append_cancel_right h
  have hroot := List.map_inj_left.1 hnodes Assembly.rootDirectory (rootDirectory_mem _)
  have hlabel : p.rootLabel ++ "/" = q.rootLabel ++ "/" := by
    simpa [Assembly.directoryNode] using hroot
  exact String.append_left_inj _ |>.1 hlabel

theorem run_report_eq_iff (hp : p.enriched = false) (hq : q.enriched = false)
    (hfiles : files.Perm files') (hnodup : files.paths.Nodup) (hcatalog : p.catalog = q.catalog)
    (hlimit : p.limit = q.limit) (haliases : p.aliases = q.aliases) :
    (p.run files).report = (q.run files').report ↔ p.rootLabel = q.rootLabel := by
  rw [run_report_of_plain hp, run_report_of_plain hq,
    readings_eq_of_perm hfiles hnodup hcatalog hlimit]
  constructor
  · intro h
    have hnodes := congrArg (fun r => r.files.nodes) h
    exact rootLabel_of_fileNodes files files' _ hnodes
  · intro hroot
    have hassembly : p.assembly files (q.readings (q.targets files'))
        = q.assembly files' (q.readings (q.targets files')) := by
      rw [p.assembly_eq_of_perm hfiles, assembly, assembly, haliases, hroot]
    rw [hassembly]

end AnalysisPlan

/-! ## Sessions -/

structure Call where
  plan : AnalysisPlan
  files : FileMap
  asked : Seconds
  stored : Seconds

namespace Call

open Fingerprint

variable {c d : Call}

def key (c : Call) : Except Json.WriteError String :=
  c.plan.cacheKey c.files

def inputs (c : Call) : Inputs where
  files := c.files
  aliases := c.plan.aliases
  options := [("max_files", .int c.plan.limit), ("llm_enabled", .bool c.plan.enriched)]

theorem key_eq (c : Call) : c.key = c.inputs.fingerprint c.plan.maxDigits :=
  rfl

theorem fits_of_key {key : String} (h : c.key = .ok key) : c.inputs.Fits c.plan.maxDigits := by
  by_contra hfits
  rw [key_eq, Inputs.fingerprint_of_not_fits hfits] at h
  cases h

def own (c : Call) : Report :=
  (c.plan.run c.files).report

def answers (cache : Cache Report) : List Call → List (Except AnalysisPlan.CacheFailure Report)
  | [] => []
  | c :: rest =>
    let (report, _, cache) := c.plan.runCached c.files cache c.asked c.stored
    report :: answers cache rest

structure Legible (c : Call) : Prop where
  paths : ∀ f ∈ c.files, '\x00' ∉ f.1.toList
  aliases : ∀ a ∈ c.plan.aliases, LegibleAlias a

theorem Legible.inputs (h : c.Legible) : c.inputs.Legible where
  paths := h.paths
  aliases := h.aliases
  options := by
    simp only [Call.inputs, List.mem_cons, List.not_mem_nil, or_false, forall_eq_or_imp, forall_eq]
    exact ⟨⟨by simp, by simp, .int _⟩, ⟨by simp, by simp, .bool _⟩⟩

/-- The same files, limit and aliases, but for wildcards. -/
structure Alike (c d : Call) : Prop where
  files : c.files.Perm d.files
  limit : c.plan.limit = d.plan.limit
  aliases : c.plan.aliases.map unmarked = d.plan.aliases.map unmarked

theorem alike_of_inputs (h : c.inputs.Alike d.inputs) : c.Alike d where
  files := h.files
  aliases := h.aliases
  limit := by
    have hmem : ("max_files", Json.int c.plan.limit) ∈ d.inputs.options :=
      h.options.mem_iff.1 List.mem_cons_self
    simpa [Call.inputs] using hmem

/-- One call, with calls in the place of their reports. -/
def maker (cache : Cache Call) (c : Call) : Except AnalysisPlan.CacheFailure Call × Cache Call :=
  match c.key with
  | .error e => (.error (.key e), cache)
  | .ok key =>
    match cache.get c.asked key with
    | (some made, cache) => (.ok made, cache)
    | (none, cache) =>
      match cache.put c.stored key c with
      | (.ok _, cache) => (.ok c, cache)
      | (.error e, cache) => (.error (.store e), cache)

def makers (cache : Cache Call) : List Call → List (Except AnalysisPlan.CacheFailure Call)
  | [] => []
  | c :: rest => (maker cache c).1 :: makers (maker cache c).2 rest

theorem runCached_eq_maker (cache : Cache Call) (c : Call) :
    (c.plan.runCached c.files (cache.map own) c.asked c.stored).1 = (maker cache c).1.map own ∧
      (c.plan.runCached c.files (cache.map own) c.asked c.stored).2.2 = (maker cache c).2.map own := by
  unfold AnalysisPlan.runCached maker
  rw [show c.plan.cacheKey c.files = c.key from rfl]
  rcases c.key with e | key
  · exact ⟨rfl, rfl⟩
  · simp only [Cache.get_map]
    rcases cache.get c.asked key with ⟨_ | made, cache'⟩
    · have hput := Cache.put_map own cache' c.stored key c
      rw [show (c.plan.run c.files).report = c.own from rfl]
      simp only [Option.map_none, hput]
      rcases cache'.put c.stored key c with ⟨_ | _, cache''⟩ <;> exact ⟨rfl, rfl⟩
    · exact ⟨rfl, rfl⟩

theorem answers_eq_makers (cache : Cache Call) (calls : List Call) :
    answers (cache.map own) calls = (makers cache calls).map (Except.map own) := by
  induction calls generalizing cache with
  | nil => rfl
  | cons c calls ih =>
    obtain ⟨hreport, hcache⟩ := runCached_eq_maker cache c
    rw [answers, makers, List.map_cons, ← ih, ← hreport, ← hcache]

structure Remembers (past : List Call) (cache : Cache Call) : Prop where
  calls : ∀ e ∈ cache.entries, e.value ∈ past ∧ e.value.key = .ok e.key
  room : 0 ≤ cache.capacity

theorem Remembers.step {past : List Call} {cache cache' : Cache Call} (h : Remembers past cache) (c : Call)
    (hentries : ∀ e ∈ cache'.entries, e ∈ cache.entries ∨ e.value = c ∧ c.key = .ok e.key)
    (hcapacity : cache'.capacity = cache.capacity) : Remembers (past ++ [c]) cache' where
  calls e he := by
    rcases hentries e he with hold | ⟨hvalue, hkey⟩
    · exact ⟨List.mem_append_left _ (h.calls e hold).1, (h.calls e hold).2⟩
    · rw [hvalue]
      exact ⟨by simp, hkey⟩
  room := hcapacity ▸ h.room

/-- One call: it gets a call of the past or itself, and the cache remembers it. -/
theorem Remembers.maker {past : List Call} {cache : Cache Call} (h : Remembers past cache) (c : Call) :
    Remembers (past ++ [c]) (maker cache c).2 ∧
      (∀ e, c.key = .error e → (Call.maker cache c).1 = .error (.key e)) ∧
      ∀ key, c.key = .ok key → ∃ made ∈ past ++ [c], made.key = .ok key ∧ (Call.maker cache c).1 = .ok made := by
  cases hkey : c.key with
  | error e =>
    have hmaker : Call.maker cache c = (.error (.key e), cache) := by rw [Call.maker, hkey]
    rw [hmaker]
    refine ⟨h.step c (fun e he => .inl he) rfl, ?_, nofun⟩
    rintro _ ⟨⟩
    rfl
  | ok key =>
    have hcapacity := (Cache.get_frame cache c.asked key).2
    rcases hget : cache.get c.asked key with ⟨_ | made, cache'⟩
    · rw [hget] at hcapacity
      have hput := (Cache.put_eq_ok_iff cache' c.stored key c).mpr (hcapacity ▸ h.room)
      have hmaker : Call.maker cache c = (.ok c, (cache'.put c.stored key c).2) := by
        simp only [Call.maker, hkey, hget]
        split
        · next hstored => rw [hstored]
        · next hstored => simp [hstored] at hput
      rw [hmaker]
      refine ⟨h.step c (fun e he => ?_) hcapacity, nofun, ?_⟩
      · rcases Cache.mem_of_put he with rfl | he
        · exact .inr ⟨rfl, hkey⟩
        · exact .inl (Cache.mem_of_get (by rwa [hget]))
      · rintro _ ⟨⟩
        exact ⟨c, by simp, hkey, rfl⟩
    · rw [hget] at hcapacity
      have hmaker : Call.maker cache c = (.ok made, cache') := by simp only [Call.maker, hkey, hget]
      obtain ⟨x, hx, rfl, rfl⟩ := Cache.exists_of_get (congrArg Prod.fst hget)
      rw [hmaker]
      refine ⟨h.step c (fun e he => .inl (Cache.mem_of_get (by rwa [hget]))) hcapacity, nofun, ?_⟩
      rintro _ ⟨⟩
      exact ⟨x.value, List.mem_append_left _ (h.calls x hx).1, (h.calls x hx).2, rfl⟩

theorem makers_mem {past calls : List Call} {cache : Cache Call} (h : Remembers past cache)
    {i : Nat} {asked : Call} (hasked : calls[i]? = some asked) :
    (∀ e, asked.key = .error e → (makers cache calls)[i]? = some (.error (.key e))) ∧
      ∀ key, asked.key = .ok key → ∃ made ∈ past ++ calls.take (i + 1), made.key = .ok key ∧
        (makers cache calls)[i]? = some (.ok made) := by
  induction calls generalizing past cache i with
  | nil => simp at hasked
  | cons c calls ih =>
    obtain ⟨hrest, herror, hmade⟩ := h.maker c
    cases i with
    | zero =>
      obtain rfl : c = asked := by simpa using hasked
      refine ⟨fun e he => by simp [makers, herror e he], fun key hkey => ?_⟩
      obtain ⟨made, hmem, hkey, hfirst⟩ := hmade key hkey
      exact ⟨made, by simpa using hmem, hkey, by simp [makers, hfirst]⟩
    | succ i =>
      obtain ⟨hlater, hlater'⟩ := ih hrest (by simpa using hasked)
      refine ⟨hlater, fun key hkey => ?_⟩
      obtain ⟨made, hmem, hkey, hlater⟩ := hlater' key hkey
      exact ⟨made, by simpa using hmem, hkey, hlater⟩

theorem message_eq_of_key {calls : List Call} {key : String}
    (hfree : CollisionFree (calls.flatMap fun c => c.inputs.texts)) (hc : c ∈ calls) (hd : d ∈ calls)
    (hkey : c.key = .ok key) (hkey' : d.key = .ok key) : CollisionFree (c.inputs.texts ++ d.inputs.texts)
      ∧ c.inputs.message = d.inputs.message := by
  have hpair : CollisionFree (c.inputs.texts ++ d.inputs.texts) := by
    refine hfree.subset ?_
    intro t ht
    rcases List.mem_append.1 ht with ht | ht
    · exact List.mem_flatMap.2 ⟨c, hc, ht⟩
    · exact List.mem_flatMap.2 ⟨d, hd, ht⟩
  have hsame : c.inputs.fingerprint c.plan.maxDigits = d.inputs.fingerprint d.plan.maxDigits := by
    rw [← key_eq, ← key_eq, hkey, hkey']
  exact ⟨hpair, (Inputs.fingerprint_eq_iff_message (fits_of_key hkey) (fits_of_key hkey') hpair).1 hsame⟩

/-- A call gets a report if its limit can be written, and it is the report of a call, itself or one
before it, that had the same message. Where the messages can be read back, that call had the same files
and limit, and the same aliases but for wildcards; and if it had the same aliases, the report is the one
the call would make itself exactly if the root has the same label. -/
theorem answers_of_session (lifetime : Seconds) (capacity : Nat) (calls : List Call)
    (hplain : ∀ c ∈ calls, c.plan.enriched = false) (hmaps : ∀ c ∈ calls, c.files.paths.Nodup)
    (hfree : CollisionFree (calls.flatMap fun c => c.inputs.texts)) (i : Nat) (asked : Call)
    (hasked : calls[i]? = some asked) :
    (¬ asked.inputs.Fits asked.plan.maxDigits →
      (answers ⟨lifetime, capacity, []⟩ calls)[i]? = some (.error (.key .tooLong)))
    ∧ (asked.inputs.Fits asked.plan.maxDigits →
      ∃ made ∈ calls.take (i + 1), (makers ⟨lifetime, capacity, []⟩ calls)[i]? = some (.ok made)
        ∧ (answers ⟨lifetime, capacity, []⟩ calls)[i]? = some (.ok made.own)
        ∧ made.inputs.message = asked.inputs.message
        ∧ (made.Legible → asked.Legible → made.Alike asked
          ∧ (made.plan.catalog = asked.plan.catalog → made.plan.aliases = asked.plan.aliases →
            (made.own = asked.own ↔ made.plan.rootLabel = asked.plan.rootLabel)))) := by
  have hempty : Remembers [] ⟨lifetime, capacity, []⟩ := ⟨by simp, by simp⟩
  obtain ⟨herror, hreport⟩ := makers_mem hempty hasked
  have hanswers : (answers ⟨lifetime, capacity, []⟩ calls)[i]? =
      (makers ⟨lifetime, capacity, []⟩ calls)[i]?.map (Except.map own) := by
    rw [show (⟨lifetime, capacity, []⟩ : Cache Report) = Cache.map own ⟨lifetime, capacity, []⟩
      from rfl, answers_eq_makers, List.getElem?_map]
  refine ⟨fun hfits => ?_, fun hfits => ?_⟩
  · rw [hanswers, herror .tooLong (Inputs.fingerprint_of_not_fits hfits)]
    rfl
  obtain ⟨made, hmade, hkey, hmaker⟩ := hreport _ (Inputs.fingerprint_of_fits hfits)
  have hmem : made ∈ calls := List.mem_of_mem_take hmade
  have haskedMem : asked ∈ calls := List.mem_of_getElem? hasked
  obtain ⟨hpair, hmessage⟩ := message_eq_of_key hfree hmem haskedMem hkey (Inputs.fingerprint_of_fits hfits)
  refine ⟨made, hmade, hmaker, ?_, hmessage, fun hlegible hlegible' => ?_⟩
  · rw [hanswers, hmaker]
    rfl
  · have halike := alike_of_inputs
      (Inputs.alike_of_message hlegible.inputs hlegible'.inputs hpair hmessage)
    refine ⟨halike, fun hcatalog haliases => ?_⟩
    exact AnalysisPlan.run_report_eq_iff (hplain _ hmem) (hplain _ haskedMem) halike.files
      (hmaps _ hmem) hcatalog halike.limit haliases

def labelled (label text : String) : Call where
  plan := { model := .direct fun _ => .ok .null, enriched := false, rootLabel := label }
  files := [("a.ts", text)]
  asked := 0
  stored := 1

theorem labelled_legible (label text : String) : (labelled label text).Legible where
  paths := by simp [labelled]
  aliases := by simp [labelled]

theorem labelled_fits (label text : String) :
    (labelled label text).inputs.Fits (labelled label text).plan.maxDigits := by
  simp only [Inputs.Fits, labelled, inputs, AnalysisPlan.limit]
  decide +kernel

theorem labelled_collisionFree : CollisionFree
    (([labelled "app" "1", labelled "app" "2", labelled "lib" "1"]).flatMap fun c =>
      c.inputs.texts) := by
  have hoptions : ∀ limit, byName [("max_files", Json.int limit), ("llm_enabled", .bool false)]
      = [("llm_enabled", .bool false), ("max_files", .int limit)] := fun limit =>
    (byName_eq_of_perm (List.Perm.swap _ _ _) (by simp)).trans
      (List.mergeSort_of_pairwise (by simp))
  simp only [CollisionFree, List.flatMap_cons, List.flatMap_nil, Inputs.texts, Inputs.message,
    message, inputs, labelled, hoptions]
  simp only [byName, List.mergeSort_singleton]
  decide +kernel

/-- The file is the same as in the first call, and the label of the root another. -/
theorem answers_of_relabelled_root :
    let calls := [labelled "app" "1", labelled "app" "2", labelled "lib" "1"]
    (∀ c ∈ calls, c.plan.enriched = false) ∧ (∀ c ∈ calls, c.files.paths.Nodup)
      ∧ CollisionFree (calls.flatMap fun c => c.inputs.texts)
      ∧ ∃ made ∈ calls, (answers ⟨900, 64, []⟩ calls)[2]? = some (.ok made.own)
        ∧ made.Alike (labelled "lib" "1")
        ∧ (made.own = (labelled "lib" "1").own ↔ made.plan.rootLabel = "lib") := by
  intro calls
  have hplain : ∀ c ∈ calls, c.plan.enriched = false := by simp [calls, labelled]
  have hmaps : ∀ c ∈ calls, c.files.paths.Nodup := by simp [calls, labelled, FileMap.paths]
  obtain ⟨-, hreport⟩ :=
    answers_of_session 900 64 calls hplain hmaps labelled_collisionFree 2 (labelled "lib" "1") rfl
  obtain ⟨made, hmade, -, hanswer, -, hlegible⟩ := hreport (labelled_fits _ _)
  have hmem : made ∈ calls := hmade
  have hsame : made.Legible ∧ made.plan.catalog = .builtin ∧ made.plan.aliases = [] := by
    simp only [calls, List.mem_cons, List.not_mem_nil, or_false] at hmem
    rcases hmem with rfl | rfl | rfl <;> exact ⟨labelled_legible _ _, rfl, rfl⟩
  obtain ⟨halike, hown⟩ := hlegible hsame.1 (labelled_legible _ _)
  exact ⟨hplain, hmaps, labelled_collisionFree, made, hmem, hanswer, halike,
    hown hsame.2.1 hsame.2.2⟩

/-- The second call gets the root of the first. -/
theorem answers_of_other_root_label :
    answers ⟨900, 64, []⟩ [labelled "app" "1", labelled "lib" "1"]
      ≠ [.ok (labelled "app" "1").own, .ok (labelled "lib" "1").own] := by
  have hkey : (labelled "app" "1").key = _ := Inputs.fingerprint_of_fits (labelled_fits "app" "1")
  have hkey' : (labelled "lib" "1").key = (labelled "app" "1").key := rfl
  have hlive : ((labelled "lib" "1").asked.since (labelled "app" "1").stored).reaches 900 = false := by
    decide
  have hmakers : makers ⟨900, 64, []⟩ [labelled "app" "1", labelled "lib" "1"]
      = [.ok (labelled "app" "1"), .ok (labelled "app" "1")] := by
    simp [makers, maker, Cache.get, Cache.find?, Cache.put, Cache.write, Cache.evict, Cache.isExpired, hkey',
      hkey, hlive]
  have hown : (labelled "app" "1").own ≠ (labelled "lib" "1").own := by
    intro h
    have hnodup : (labelled "app" "1").files.paths.Nodup := by simp [labelled, FileMap.paths]
    have hlabel := (AnalysisPlan.run_report_eq_iff (p := (labelled "app" "1").plan)
      (q := (labelled "lib" "1").plan) rfl rfl (List.Perm.refl _) hnodup rfl rfl rfl).1 h
    exact absurd hlabel (by decide)
  intro h
  have hanswers := answers_eq_makers ⟨900, 64, []⟩ [labelled "app" "1", labelled "lib" "1"]
  rw [hmakers] at hanswers
  have hreports := hanswers.symm.trans h
  simp [Except.map, hown] at hreports

end Call

end CodeAtlas
