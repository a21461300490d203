import CodeAtlas.Inference.Enrich
import CodeAtlas.Proofs.Assembly

/-!
# What enrichment can do to an assembly

Whatever a model replies, enrichment writes edges between different nodes, marked as proposed, and
changes nothing else (`enrich_writes`). A model that fails writes nothing and leaves one warning
(`enrich_of_fails`).
-/

namespace CodeAtlas

/-- An edge as a model may add it: marked so, between two different ids. -/
structure Edge.Proposed (ids : List String) (e : Edge) : Prop where
  provenance : e.provenance = .llm
  distinct : e.source ≠ e.target
  within : e.Within ids

theorem Edge.Proposed.of_completes {ids : List String} (a b : Edge) (h : b.Completes a)
    (ha : a.Proposed ids) : b.Proposed ids where
  provenance := h.provenance.trans ha.provenance
  distinct := by rw [h.source, h.target]; exact ha.distinct
  within := ha.within.of_completes a b h

namespace Assembly

/-! ## Proposals -/

theorem proposedFileEdge?_proposed {files : List String} {p : FileProposal} {e : Edge}
    (h : proposedFileEdge? files p = some e) : e.Proposed files := by
  unfold proposedFileEdge? at h
  split at h
  · rename_i hc
    simp only [Bool.and_eq_true, List.contains_iff_mem, bne_iff_ne] at hc
    cases h
    exact ⟨rfl, hc.2, hc.1⟩
  · cases h

theorem mem_of_lookup {table : List (String × String)} {name id : String}
    (h : table.lookup name = some id) : id ∈ table.map (·.2) := by
  rw [List.lookup_eq_findSome?] at h
  obtain ⟨entry, hentry, hid⟩ := List.exists_of_findSome?_eq_some h
  split at hid
  · cases hid; exact List.mem_map_of_mem hentry
  · cases hid

theorem symbolId?_mem {table : List (String × String)} {r : SymbolRef} {id : String}
    (h : symbolId? table r = some id) : id ∈ table.map (·.2) := by
  rcases Option.or_eq_some_iff.mp h with h | ⟨-, h⟩
  · exact mem_of_lookup h
  · exact mem_of_lookup h

theorem proposedCallEdge?_proposed {table : List (String × String)} {p : FunctionProposal} {e : Edge}
    (h : proposedCallEdge? table p = some e) : e.Proposed (table.map (·.2)) := by
  unfold proposedCallEdge? at h
  split at h
  · rename_i source target hsource htarget
    split at h
    · cases h
    · rename_i hne
      cases h
      exact ⟨rfl, by simpa using hne, symbolId?_mem hsource, symbolId?_mem htarget⟩
  · cases h

/-- Names stand for functions that are shown. -/
theorem symbols_shown (a : Assembly) {id : String} (h : id ∈ a.symbols.map (·.2)) :
    id ∈ a.functionGraph.functionIds := by
  simp only [symbols, List.mem_map, List.mem_flatMap, List.mem_filter, List.contains_iff_mem] at h
  obtain ⟨_, ⟨file, -, f, ⟨-, hshown⟩, name, -, rfl⟩, rfl⟩ := h
  exact List.mem_map.mpr hshown

/-! ## Writes -/

def withEdges (a : Assembly) (fs cs : List Edge) : Assembly :=
  { a with fileEdges := a.fileEdges.upsertAll fs, functionEdges := a.functionEdges.upsertAll cs }

theorem withEdges_idsOfKind (a : Assembly) (fs cs : List Edge) (kind : String) :
    (a.withEdges fs cs).fileGraph.idsOfKind kind = a.fileGraph.idsOfKind kind := rfl

theorem withEdges_functionIds (a : Assembly) (fs cs : List Edge) :
    (a.withEdges fs cs).functionGraph.functionIds = a.functionGraph.functionIds := rfl

theorem merge_assembly (a : Assembly) (p : Proposals) : (a.merge p).assembly =
    a.withEdges (p.files.filterMap (proposedFileEdge? a.shownFiles))
      (p.functions.filterMap (proposedCallEdge? a.symbols)) := by
  simp only [merge, withEdges, EdgeStore.mergeAll_fst]

structure Writable (a : Assembly) (fs cs : List Edge) : Prop where
  files : ∀ e ∈ fs, e.Proposed a.shownFiles
  functions : ∀ e ∈ cs, e.Proposed a.functionGraph.functionIds

theorem Writable.nil (a : Assembly) : a.Writable [] [] :=
  ⟨by simp, by simp⟩

theorem merge_writable (a : Assembly) (p : Proposals) :
    a.Writable (p.files.filterMap (proposedFileEdge? a.shownFiles))
      (p.functions.filterMap (proposedCallEdge? a.symbols)) where
  files := by
    intro e he
    obtain ⟨q, -, hq⟩ := List.mem_filterMap.mp he
    exact proposedFileEdge?_proposed hq
  functions := by
    intro e he
    obtain ⟨q, -, hq⟩ := List.mem_filterMap.mp he
    have h := proposedCallEdge?_proposed hq
    exact ⟨h.provenance, h.distinct, symbols_shown a h.within.1, symbols_shown a h.within.2⟩

theorem Linked.withEdges {a : Assembly} (h : a.Linked)
    (hfiles : a.shownFiles = a.fileGraph.idsOfKind "file") {fs cs : List Edge} (hw : a.Writable fs cs) :
    (a.withEdges fs cs).Linked where
  fileEnds := by
    refine EdgeStore.upsertAll_all Edge.Within.of_completes h.fileEnds fun e he => ?_
    have := (hw.files e he).within
    rw [hfiles] at this
    exact this
  functionEnds :=
    EdgeStore.upsertAll_all Edge.Within.of_completes h.functionEnds fun e he =>
      (hw.functions e he).within
  fileKeys := EdgeStore.upsertAll_keys_nodup fs h.fileKeys
  functionKeys := EdgeStore.upsertAll_keys_nodup cs h.functionKeys

/-- Either nothing was merged, or a list of proposals was. -/
theorem settle_assembly (a : Assembly) (asked : Asked) (reply : Except Failure Json) :
    (Enrichment.settle a asked reply).assembly = a ∨
      ∃ p, (Enrichment.settle a asked reply).assembly = (a.merge p).assembly := by
  cases reply with
  | ok value => exact .inr ⟨_, rfl⟩
  | error f => exact .inl rfl

theorem enrich_assembly (a : Assembly) (s : Settings) (model : Model) :
    (a.enrich s model).assembly = a ∨ ∃ p, (a.enrich s model).assembly = (a.merge p).assembly := by
  unfold enrich
  split
  · exact .inl rfl
  · cases model with
    | direct ask =>
      simp only [Enrichment.directly]
      split
      · exact .inl rfl
      · exact settle_assembly a _ _
    | network send =>
      simp only [Enrichment.overNetwork]
      split
      · exact .inl rfl
      · split
        · exact .inl rfl
        · split
          · exact .inl rfl
          · split
            · exact .inl rfl
            · exact settle_assembly a _ _

theorem enrich_writes (a : Assembly) (s : Settings) (model : Model) :
    ∃ fs cs, a.Writable fs cs ∧ (a.enrich s model).assembly = a.withEdges fs cs := by
  rcases enrich_assembly a s model with h | ⟨p, h⟩
  · exact ⟨[], [], .nil a, h⟩
  · exact ⟨_, _, merge_writable a p, h.trans (merge_assembly a p)⟩

end Assembly

/-! ## Failures -/

/-- The model cannot be asked, or does not answer, what would be asked about the files. -/
inductive Model.Fails (s : Settings) (analyses : List FileAnalysis) : Model → Failure → Prop
  | direct {ask : Question → Except Failure Json} {f : Failure} (hne : analyses ≠ [])
      (h : ask (Enrichment.questionFor s analyses) = .error f) : Fails s analyses (.direct ask) f
  | unknown {send : HttpRequest → HttpOutcome} {f : Failure} (hkey : s.hasCredential = true)
      (h : Provider.ofSettings s = .error f) : Fails s analyses (.network send) f
  | network {send : HttpRequest → HttpOutcome} {p : Provider} {f : Failure}
      (hkey : s.hasCredential = true) (hp : Provider.ofSettings s = .ok p) (hne : analyses ≠ [])
      (h : p.complete send (Enrichment.questionFor s analyses) = .error f) :
      Fails s analyses (.network send) f

structure Enrichment.FailedWith (a : Assembly) (f : Failure) (e : Enrichment) : Prop where
  assembly : e.assembly = a
  warnings : e.warnings = .ok [failureWarning f] ∨ e.warnings = .error f

theorem Enrichment.refused_failedWith (a : Assembly) (f : Failure) :
    FailedWith a f (refused a f) := by
  refine ⟨rfl, ?_⟩
  unfold refused
  split
  · exact .inl rfl
  · exact .inr rfl

theorem Enrichment.settle_failedWith (a : Assembly) (asked : Asked) (f : Failure) :
    FailedWith a f (settle a asked (.error f)) := by
  refine ⟨rfl, ?_⟩
  unfold settle
  split
  · rename_i h; cases h
  · rename_i h
    cases h
    split
    · exact .inl rfl
    · exact .inr rfl

theorem Provider.complete_error {p : Provider} {send : HttpRequest → HttpOutcome} {q : Question}
    {f : Failure} (h : p.complete send q = .error f) :
    p.request q = .error f ∨ ∃ r, p.request q = .ok r ∧ p.answer q (send r) = .error f := by
  unfold complete at h
  cases hr : p.request q with
  | error g =>
    rw [hr] at h
    cases h
    exact .inl rfl
  | ok r =>
    rw [hr] at h
    exact .inr ⟨r, rfl, h⟩

theorem Assembly.enrich_of_fails {a : Assembly} {s : Settings} {model : Model} {f : Failure}
    (hmin : s.minModelFiles ≤ a.analyses.length) (h : model.Fails s a.analyses f) :
    Enrichment.FailedWith a f (a.enrich s model) := by
  unfold enrich
  rw [if_neg (by omega)]
  cases h with
  | direct hne h =>
    simp only [Enrichment.directly, List.isEmpty_iff, hne, if_false, h]
    exact Enrichment.settle_failedWith a _ f
  | unknown hkey h =>
    simp only [Enrichment.overNetwork, hkey, h, Bool.not_true, Bool.false_eq_true, if_false]
    exact Enrichment.refused_failedWith a f
  | network hkey hp hne h =>
    simp only [Enrichment.overNetwork, hkey, hp, hne, List.isEmpty_iff, Bool.not_true,
      Bool.false_eq_true, if_false]
    rcases Provider.complete_error h with hr | ⟨r, hr, ha⟩
    · rw [hr]
      exact Enrichment.refused_failedWith a f
    · rw [hr]
      simp only [ha]
      exact Enrichment.settle_failedWith a _ f

end CodeAtlas
