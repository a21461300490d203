import CodeAtlas.Proofs.CacheHistory
import CodeAtlas.Proofs.InputOrder
import CodeAtlas.Proofs.Resolution

/-!
# Files that no language reads

Such a file is known to the resolver, where it stands in the lists of files that specifiers may mean,
and is nothing else to a run. Where no import of an analysed file leads to it, the run is the one
without it (`run_of_unread_file`).
-/

namespace CodeAtlas

/-! ## The files that are read -/

theorem filter_byName {α : Type} {entries : List (String × α)} (hnames : (entries.map (·.1)).Nodup)
    (q : String × α → Bool) :
    (Fingerprint.byName entries).filter q = Fingerprint.byName (entries.filter q) := by
  have hall : (Fingerprint.byName entries).Perm entries := List.mergeSort_perm entries _
  have hkept : (Fingerprint.byName (entries.filter q)).Perm (entries.filter q) :=
    List.mergeSort_perm _ _
  refine List.Perm.eq_of_pairwise ?_ ((byName_pairwise entries).filter q) (byName_pairwise _)
    ((hall.filter q).trans hkept.symm)
  intro a b ha hb hab hba
  -- Only one entry has the name.
  apply List.inj_on_of_nodup_map hnames
  · exact hall.mem_iff.mp (List.mem_of_mem_filter ha)
  · exact List.mem_of_mem_filter (hkept.mem_iff.mp hb)
  · exact String.le_antisymm hab hba

theorem AnalysisPlan.targets_of_unread_file (p : AnalysisPlan) {files larger : FileMap}
    {path text : String} (hlarger : larger.Perm ((path, text) :: files)) (hpaths : larger.paths.Nodup)
    (hpath : (p.catalog.detect path).supported = false) : p.targets larger = p.targets files := by
  have hfiles : files.paths.Nodup := by
    have hnodup : (path :: files.paths).Nodup := (hlarger.map Prod.fst).nodup_iff.mp hpaths
    exact (List.nodup_cons.mp hnodup).2
  have hread : (larger.filter fun f => (p.catalog.detect f.1).supported).Perm
      (files.filter fun f => (p.catalog.detect f.1).supported) := by
    have hfilter := hlarger.filter fun f => (p.catalog.detect f.1).supported
    rwa [List.filter_cons_of_neg (by simp [hpath])] at hfilter
  have hsorted := byName_eq_of_perm hread ((List.filter_sublist.map Prod.fst).nodup hpaths)
  rw [targets, targets, filter_byName hpaths, filter_byName hfiles, hsorted]

/-! ## The files that are found -/

theorem find?_eq_of_ne_some {α : Type} [DecidableEq α] {p q : α → Bool} {u : α}
    (hpq : ∀ x, x ≠ u → p x = q x) (hu : p u = true) {xs : List α} (h : xs.find? p ≠ some u) :
    xs.find? p = xs.find? q := by
  induction xs with
  | nil => rfl
  | cons x xs ih =>
    by_cases hx : x = u
    · -- the search would have ended here
      simp [hx, hu] at h
    · have hsame := hpq x hx
      cases hp : p x with
      | true => rw [List.find?_cons_of_pos hp, List.find?_cons_of_pos (hsame ▸ hp)]
      | false =>
        have hq : ¬ q x = true := by simp [← hsame, hp]
        rw [List.find?_cons_of_neg (by simp [hp])] at h ⊢
        rw [List.find?_cons_of_neg hq]
        exact ih h

theorem Resolver.resolve_of_unread_file {known known' : List String} {aliases : List Alias}
    {path : String} (hknown : ∀ file, file ∈ known' ↔ file = path ∨ file ∈ known)
    {importer specifier : String}
    (h : Resolver.resolve ⟨known', aliases⟩ importer specifier ≠ some path) :
    Resolver.resolve ⟨known', aliases⟩ importer specifier =
      Resolver.resolve ⟨known, aliases⟩ importer specifier := by
  by_cases hspecifier : specifier = ""
  · simp [Resolver.resolve, hspecifier]
  · rw [resolve_eq _ hspecifier] at h ⊢
    rw [resolve_eq _ hspecifier]
    apply find?_eq_of_ne_some _ _ h
    · intro file hfile
      simp [hknown, hfile]
    · simp [hknown]

/-! ## Runs -/

namespace AnalysisPlan

/-- Whether there is a key does not depend on the files. -/
theorem cacheKey_cases (p : AnalysisPlan) (files files' : FileMap) :
    (∃ key key', p.cacheKey files = .ok key ∧ p.cacheKey files' = .ok key') ∨
      ∃ e, p.cacheKey files = .error e ∧ p.cacheKey files' = .error e := by
  unfold cacheKey Fingerprint.fingerprint
  split
  · exact .inl ⟨_, _, rfl, rfl⟩
  · exact .inr ⟨_, rfl, rfl⟩

theorem runCached_of_no_key (p : AnalysisPlan) {files : FileMap} {e : Json.WriteError}
    (h : p.cacheKey files = .error e) (cache : Cache Report) (asked stored : Seconds) :
    p.runCached files cache asked stored = (.error (.key e), none, cache) := by
  rw [runCached, h]

/-- What a run gives if the cache has nothing for its key. -/
theorem runCached_of_miss (p : AnalysisPlan) {files : FileMap} {cache : Cache Report} {asked : Seconds}
    {key : String} (hkey : p.cacheKey files = .ok key) (h : (cache.get asked key).1 = none)
    (stored : Seconds) : (p.runCached files cache asked stored).1 =
        (if 0 ≤ cache.capacity then .ok (p.run files).report else .error (.store .noOldest)) ∧
      (p.runCached files cache asked stored).2.1 = some (p.run files) := by
  have hcapacity := (Cache.get_frame cache asked key).2
  have hput := Cache.put_eq_ok_iff (cache.get asked key).2 stored key (p.run files).report
  rw [hcapacity] at hput
  unfold runCached
  rw [hkey]
  rcases hget : cache.get asked key with ⟨found, cache'⟩
  obtain rfl : found = none := by simpa [hget] using h
  rw [hget] at hput
  rcases hstored : cache'.put stored key (p.run files).report with ⟨_ | _, cache''⟩
  · simp_all
  · simp_all

/-- A file that no language reads, and that no import of an analysed file leads to, changes nothing in
a run: not the report, not what is passed on meanwhile, not what a model is asked. Runs that find
nothing in their caches are the same as well, and give the same if both caches can store. -/
theorem run_of_unread_file (p : AnalysisPlan) {files larger : FileMap} {path text : String}
    (hlarger : larger.Perm ((path, text) :: files)) (hpaths : larger.paths.Nodup)
    (hpath : (p.catalog.detect path).supported = false)
    (hunreached : ∀ a ∈ analyses (p.readings (p.targets larger)), ∀ b ∈ a.imports,
      Resolver.resolve ⟨larger.paths, p.aliases⟩ a.path b.source ≠ some path) :
    p.run larger = p.run files ∧
    ∀ cache cache' asked asked' stored stored',
      (∀ key, p.cacheKey larger = .ok key → (cache.get asked key).1 = none) →
      (∀ key, p.cacheKey files = .ok key → (cache'.get asked' key).1 = none) →
      (p.runCached larger cache asked stored).2.1 = (p.runCached files cache' asked' stored').2.1 ∧
      ((0 ≤ cache.capacity ↔ 0 ≤ cache'.capacity) →
        (p.runCached larger cache asked stored).1 = (p.runCached files cache' asked' stored').1) := by
  have htargets := p.targets_of_unread_file hlarger hpaths hpath
  have hknown : ∀ file, file ∈ larger.paths ↔ file = path ∨ file ∈ files.paths := by
    intro file
    rw [FileMap.paths, (hlarger.map Prod.fst).mem_iff]
    simp [FileMap.paths]
  have hassembly : p.assembly larger (p.readings (p.targets larger)) =
      p.assembly files (p.readings (p.targets larger)) := by
    apply Assembly.ofAnalyses_congr
    intro a ha b hb
    exact Resolver.resolve_of_unread_file hknown (hunreached a ha b hb)
  have hrun : p.run larger = p.run files := by
    simp only [htargets] at hassembly
    simp only [run, htargets, hassembly]
  refine ⟨hrun, ?_⟩
  intro cache cache' asked asked' stored stored' hmiss hmiss'
  rcases p.cacheKey_cases larger files with ⟨key, key', hkey, hkey'⟩ | ⟨e, hkey, hkey'⟩
  · obtain ⟨hreport, hmade⟩ := p.runCached_of_miss hkey (hmiss key hkey) stored
    obtain ⟨hreport', hmade'⟩ := p.runCached_of_miss hkey' (hmiss' key' hkey') stored'
    rw [hmade, hmade', hreport, hreport', hrun]
    exact ⟨rfl, fun hcapacity => by simp only [hcapacity]⟩
  · rw [p.runCached_of_no_key hkey, p.runCached_of_no_key hkey']
    exact ⟨rfl, fun _ => rfl⟩

/-- From `a.py`, the file `b.json` is one that `b` may mean, behind `b.py`. -/
theorem run_of_unread_json :
    let p : AnalysisPlan := { model := .direct fun _ => .ok (.str r#"{"fileEdges": []}"#) }
    let files : FileMap := [("a.py", "import b\n"), ("b.py", "def f():\n    pass\n")]
    let larger : FileMap :=
      [("a.py", "import b\n"), ("b.json", "{}"), ("b.py", "def f():\n    pass\n")]
    (p.catalog.detect "b.json").supported = false ∧ "b.json" ∈ Resolver.searched [] "a.py" "b" ∧
      p.run larger = p.run files := by
  intro p files larger
  have hunsupported : (p.catalog.detect "b.json").supported = false := by decide +kernel
  have hsorted : Fingerprint.byName larger = larger := List.mergeSort_of_pairwise (by decide)
  have htargets : p.targets larger = files := by
    rw [targets, hsorted]
    decide +kernel
  refine ⟨hunsupported, by decide +kernel, ?_⟩
  have hlarger : larger.Perm (("b.json", "{}") :: files) := by decide
  refine (p.run_of_unread_file hlarger (by decide) hunsupported ?_).1
  rw [htargets]
  decide +kernel

end AnalysisPlan

end CodeAtlas
