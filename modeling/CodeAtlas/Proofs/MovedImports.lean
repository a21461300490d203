import CodeAtlas.Proofs.ExportedCalls
import CodeAtlas.Proofs.Renumbering
import CodeAtlas.Proofs.Sites
import CodeAtlas.Script.Analyze
import Mathlib.Data.List.Flatten

/-!
# Imports in other places

The import declarations of a module hold in all of it, wherever they stand: two modules with the same
imports in the same order and the same other code in the same order have the same imports, calls and
records. A declaration that holds code itself, which its attributes may do, counts as code too.
-/

namespace CodeAtlas.Script

open Function (Injective)

/-! ## Places that are left alone -/

def Kind.isCollected (k : Kind) : Bool :=
  k == .importStatement || k == .exportStatement || k == .callExpression || k.isFunction || k.isClass

/-- Whether a walk collects something at a statement of the program or below it. What an import
declaration brings in is known before the walk, so only what lies below it counts. -/
def Tree.holdsCode (t : Tree) : Bool :=
  (if t.kind == .importStatement then t.sites.tail else t.sites).any (·.kind.isCollected)

section
variable {w : Walk}

theorem Walk.visit_of_not_isCollected {s : Site} (h : s.kind.isCollected = false) : w.visit s = w := by
  unfold Kind.isCollected at h
  simp only [Bool.or_eq_false_iff, beq_eq_false_iff_ne] at h
  obtain ⟨⟨⟨⟨himport, hexport⟩, hcall⟩, hfunction⟩, hclass⟩ := h
  unfold Walk.visit
  split
  · contradiction
  · contradiction
  · contradiction
  · rw [hfunction, hclass]
    rfl

theorem Walk.foldl_visit_of_not_isCollected {sites : List Site}
    (h : sites.any (·.kind.isCollected) = false) : sites.foldl Walk.visit w = w := by
  induction sites with
  | nil => rfl
  | cons s sites ih =>
    rw [List.any_cons, Bool.or_eq_false_iff] at h
    rw [List.foldl_cons, Walk.visit_of_not_isCollected h.1, ih h.2]

end

/-! ## Sites in other surroundings -/

theorem sitesFrom_eq (above : List (Nat × Tree)) (n : Nat) (t : Tree) :
    sitesFrom above n t = ⟨n, t, above⟩ :: sitesOfAll ((n, t) :: above) (n + 1) t.children := by
  cases t
  rfl

mutual

/-- The nodes below a tree do not depend on its number and surroundings. -/
theorem sitesFrom_unplaced {above above' : List (Nat × Tree)} {n n' : Nat} : ∀ {t u : Tree},
    t.unplaced = u.unplaced →
    (sitesFrom above n t).map (·.tree.unplaced) = (sitesFrom above' n' u).map (·.tree.unplaced)
  | ⟨kind, role, span, own, ts⟩, u, h => by
    have hchildren := congrArg Tree.children h
    rw [Tree.unplaced_children, Tree.unplaced_children] at hchildren
    rw [sitesFrom, sitesFrom_eq, List.map_cons, List.map_cons, h, sitesOfAll_unplaced hchildren]

theorem sitesOfAll_unplaced {above above' : List (Nat × Tree)} {n n' : Nat} : ∀ {ts us : List Tree},
    ts.map Tree.unplaced = us.map Tree.unplaced →
    (sitesOfAll above n ts).map (·.tree.unplaced) = (sitesOfAll above' n' us).map (·.tree.unplaced)
  | [], [], _ => rfl
  | t :: ts, u :: us, h => by
    rw [List.map_cons, List.map_cons, List.cons.injEq] at h
    rw [sitesOfAll, sitesOfAll, List.map_append, List.map_append, sitesFrom_unplaced h.1,
      sitesOfAll_unplaced h.2]

end

theorem length_sitesFrom {above above' : List (Nat × Tree)} {n n' : Nat} {t u : Tree}
    (h : t.unplaced = u.unplaced) : (sitesFrom above n t).length = (sitesFrom above' n' u).length := by
  simpa only [List.length_map] using congrArg List.length (sitesFrom_unplaced h)

theorem sitesFrom_kind {above above' : List (Nat × Tree)} {n n' : Nat} {t u : Tree}
    (h : t.unplaced = u.unplaced) :
    (sitesFrom above n t).map Site.kind = (sitesFrom above' n' u).map Site.kind := by
  have hkind : ∀ sites : List Site, sites.map Site.kind = (sites.map (·.tree.unplaced)).map Tree.kind := by
    intro sites
    simp [Site.kind]
  rw [hkind, hkind, sitesFrom_unplaced h]

/-- A statement of the program that holds no code is passed by. -/
theorem foldl_visit_of_not_holdsCode {root t : Tree} (hroot : root.kind = .program)
    (h : t.holdsCode = false) (n : Nat) (w : Walk) :
    (sitesFrom [(0, root)] n t).foldl Walk.visit w = w := by
  have hkinds : (sitesFrom [(0, root)] n t).map Site.kind = t.sites.map Site.kind := sitesFrom_kind rfl
  have hany : ∀ sites : List Site, sites.any (·.kind.isCollected) =
      (sites.map Site.kind).any Kind.isCollected := by
    intro sites
    rw [List.any_map]
    rfl
  unfold Tree.holdsCode at h
  by_cases himport : t.kind = .importStatement
  · rw [if_pos (by rw [himport]; rfl), hany, List.map_tail, ← hkinds, ← List.map_tail, ← hany] at h
    rw [sitesFrom_eq, List.tail_cons] at h
    have hhead : w.visit ⟨n, t, [(0, root)]⟩ = w := by
      unfold Walk.visit Site.kind
      simp [himport, Site.parentIs, Site.parent?, hroot]
    rw [sitesFrom_eq, List.foldl_cons, hhead, Walk.foldl_visit_of_not_isCollected h]
  · rw [if_neg (by simpa using himport), hany, ← hkinds, ← hany] at h
    exact Walk.foldl_visit_of_not_isCollected h

/-! ## The statements of a program -/

def placed (n : Nat) : List Tree → List (Nat × Tree)
  | [] => []
  | t :: ts => (n, t) :: placed (n + t.sites.length) ts

theorem placed_map_snd (n : Nat) (ts : List Tree) : (placed n ts).map (·.2) = ts := by
  induction ts generalizing n with
  | nil => rfl
  | cons t ts ih => rw [placed, List.map_cons, ih]

theorem sitesOfAll_eq_flatMap (above : List (Nat × Tree)) (n : Nat) (ts : List Tree) :
    sitesOfAll above n ts = (placed n ts).flatMap fun p => sitesFrom above p.1 p.2 := by
  induction ts generalizing n with
  | nil => rfl
  | cons t ts ih =>
    have hlength : (sitesFrom above n t).length = t.sites.length := length_sitesFrom rfl
    rw [sitesOfAll, placed, List.flatMap_cons, ih, hlength]

def Tree.codeSites (root : Tree) : List Site :=
  ((placed 1 root.children).filter (·.2.holdsCode)).flatMap fun p => sitesFrom [(0, root)] p.1 p.2

theorem foldl_visit_codeSites {root : Tree} (hroot : root.kind = .program) (w : Walk) :
    root.sites.foldl Walk.visit w = root.codeSites.foldl Walk.visit w := by
  have hpass : ∀ (ps : List (Nat × Tree)) (w : Walk),
      (ps.flatMap fun p => sitesFrom [(0, root)] p.1 p.2).foldl Walk.visit w =
        ((ps.filter (·.2.holdsCode)).flatMap fun p => sitesFrom [(0, root)] p.1 p.2).foldl Walk.visit w := by
    intro ps
    induction ps with
    | nil => exact fun _ => rfl
    | cons p ps ih =>
      intro w
      rw [List.flatMap_cons, List.foldl_append, ih, List.filter_cons]
      split
      · rw [List.flatMap_cons, List.foldl_append]
      · next hcode => rw [foldl_visit_of_not_holdsCode hroot (by simpa using hcode)]
  have hhead : w.visit ⟨0, root, []⟩ = w := by
    apply Walk.visit_of_not_isCollected
    rw [Site.kind, hroot]
    rfl
  rw [Tree.sites, sitesFrom_eq, List.foldl_cons, hhead, sitesOfAll_eq_flatMap, hpass, Tree.codeSites]

/-! ## Numbers that leave no gap -/

/-- A number for every number, the place in the list for those that occur in it. -/
def placeIn (l : List Nat) (i : Nat) : Nat :=
  if i ∈ l then l.idxOf i else l.length + i

theorem placeIn_injective (l : List Nat) : Injective (placeIn l) := by
  intro i j h
  unfold placeIn at h
  by_cases hi : i ∈ l
  · have hlt := List.idxOf_lt_length_of_mem hi
    by_cases hj : j ∈ l
    · rw [if_pos hi, if_pos hj] at h
      exact (List.idxOf_inj hi).1 h
    · rw [if_pos hi, if_neg hj] at h
      omega
  · by_cases hj : j ∈ l
    · have hlt := List.idxOf_lt_length_of_mem hj
      rw [if_neg hi, if_pos hj] at h
      omega
    · rw [if_neg hi, if_neg hj] at h
      omega

theorem map_placeIn {l : List Nat} (h : l.Nodup) : l.map (placeIn l) = List.range l.length := by
  apply List.ext_getElem
  · simp
  · intro i hi _
    simp [placeIn, h.idxOf_getElem]

/-! ## Corresponding sites -/

theorem Tree.outlined_congr {t u : Tree} (h : t.unplaced = u.unplaced) : t.outlined = u.outlined := by
  have hoverview : ∀ t : Tree, t.outlined = if t.unplaced.kind == .program then
      { kind := .program, span := default, children := (t.unplaced.child? .name).toList } else t.unplaced := by
    intro t
    rw [unplaced_kind, unplaced_child?, outlined]
  rw [hoverview, hoverview, h]

section
variable {f f' : Nat → Nat}

mutual

/-- Trees that differ in places only have the same sites, up to the numbers that they are given. -/
theorem sitesFrom_renumbered {above above' : List (Nat × Tree)} {n n' : Nat}
    (habove : above.map (Prod.map f Tree.outlined) = above'.map (Prod.map f' Tree.outlined)) :
    ∀ {t u : Tree}, t.unplaced = u.unplaced →
    (sitesFrom above n t).map (fun s => f s.index) = (sitesFrom above' n' u).map (fun s => f' s.index) →
    (sitesFrom above n t).map (Site.renumbered f) = (sitesFrom above' n' u).map (Site.renumbered f')
  | ⟨kind, role, span, own, ts⟩, u, h, hindex => by
    have hchildren := congrArg Tree.children h
    rw [Tree.unplaced_children, Tree.unplaced_children] at hchildren
    rw [sitesFrom, sitesFrom_eq, List.map_cons, List.map_cons, List.cons.injEq] at hindex
    obtain ⟨hhead, hbelow⟩ := hindex
    rw [sitesFrom, sitesFrom_eq, List.map_cons, List.map_cons]
    congr 1
    · simp only [Site.renumbered, h, habove, hhead]
    · apply sitesOfAll_renumbered ?_ hchildren hbelow
      rw [List.map_cons, List.map_cons, habove, Prod.map_apply, Prod.map_apply, hhead,
        Tree.outlined_congr h]

theorem sitesOfAll_renumbered {above above' : List (Nat × Tree)} {n n' : Nat}
    (habove : above.map (Prod.map f Tree.outlined) = above'.map (Prod.map f' Tree.outlined)) :
    ∀ {ts us : List Tree}, ts.map Tree.unplaced = us.map Tree.unplaced →
    (sitesOfAll above n ts).map (fun s => f s.index) = (sitesOfAll above' n' us).map (fun s => f' s.index) →
    (sitesOfAll above n ts).map (Site.renumbered f) = (sitesOfAll above' n' us).map (Site.renumbered f')
  | [], [], _, _ => rfl
  | t :: ts, u :: us, h, hindex => by
    rw [List.map_cons, List.map_cons, List.cons.injEq] at h
    rw [sitesOfAll, sitesOfAll, List.map_append, List.map_append] at hindex ⊢
    obtain ⟨hhere, hrest⟩ := List.append_inj hindex (by rw [List.length_map, List.length_map, length_sitesFrom h.1])
    rw [sitesFrom_renumbered habove h.1 hhere, sitesOfAll_renumbered habove h.2 hrest]

end

theorem flatMap_renumbered {above above' : List (Nat × Tree)}
    (habove : above.map (Prod.map f Tree.outlined) = above'.map (Prod.map f' Tree.outlined)) :
    ∀ {ps qs : List (Nat × Tree)}, ps.map (·.2.unplaced) = qs.map (·.2.unplaced) →
    (ps.flatMap fun p => sitesFrom above p.1 p.2).map (fun s => f s.index) =
      (qs.flatMap fun q => sitesFrom above' q.1 q.2).map (fun s => f' s.index) →
    (ps.flatMap fun p => sitesFrom above p.1 p.2).map (Site.renumbered f) =
      (qs.flatMap fun q => sitesFrom above' q.1 q.2).map (Site.renumbered f')
  | [], [], _, _ => rfl
  | p :: ps, q :: qs, h, hindex => by
    rw [List.map_cons, List.map_cons, List.cons.injEq] at h
    rw [List.flatMap_cons, List.flatMap_cons, List.map_append, List.map_append] at hindex ⊢
    obtain ⟨hhere, hrest⟩ := List.append_inj hindex (by rw [List.length_map, List.length_map, length_sitesFrom h.1])
    rw [sitesFrom_renumbered habove h.1 hhere, flatMap_renumbered habove h.2 hrest]

end

/-! ## Modules that differ in the places of imports -/

/-- Two programs with the same import declarations in the same order, and the same code in the same
order. -/
structure Tree.ImportsMoved (root root' : Tree) : Prop where
  program : root.kind = .program
  program' : root'.kind = .program
  /-- The statements of a program have no names. -/
  nameless : root.child? .name = none
  nameless' : root'.child? .name = none
  imports : (root.children.filter (·.kind == .importStatement)).map Tree.unplaced =
    (root'.children.filter (·.kind == .importStatement)).map Tree.unplaced
  code : (root.children.filter (·.holdsCode)).map Tree.unplaced =
    (root'.children.filter (·.holdsCode)).map Tree.unplaced

theorem codeSites_index_nodup (root : Tree) : (0 :: root.codeSites.map (·.index)).Nodup := by
  have hsites : root.sites = ⟨0, root, []⟩ ::
      (placed 1 root.children).flatMap fun p => sitesFrom [(0, root)] p.1 p.2 := by
    rw [Tree.sites, sitesFrom_eq, sitesOfAll_eq_flatMap]
  have hkept : ((placed 1 root.children).filter (·.2.holdsCode)).Sublist (placed 1 root.children) :=
    List.filter_sublist
  have hsublist := ((hkept.flatMap fun p => sitesFrom [(0, root)] p.1 p.2).map (·.index)).cons_cons 0
  have hnodup := sites_index_nodup root
  rw [hsites, List.map_cons] at hnodup
  exact hnodup.sublist hsublist

def Tree.codeNumber (root : Tree) : Nat → Nat :=
  placeIn (0 :: root.codeSites.map (·.index))

theorem codeNumber_injective (root : Tree) : Injective root.codeNumber :=
  placeIn_injective _

theorem map_codeNumber (root : Tree) :
    (0 :: root.codeSites.map (·.index)).map root.codeNumber = List.range (root.codeSites.length + 1) := by
  rw [Tree.codeNumber, map_placeIn (codeSites_index_nodup root), List.length_cons, List.length_map]

theorem renumbered_start (f : Nat → Nat) (path : String) {root : Tree} (hroot : root.kind = .program) :
    (Walk.start path root).renumbered f =
      ((root.children.filter (·.kind == .importStatement)).map Tree.unplaced).foldl
        (fun w t => w.bindImport t true) { path } := by
  have hrun : ∀ (ts : List Tree) (w : Walk),
      (ts.foldl (fun w t => w.bindImport t true) w).renumbered f =
        (ts.map Tree.unplaced).foldl (fun w t => w.bindImport t true) (w.renumbered f) := by
    intro ts
    induction ts with
    | nil => exact fun _ => rfl
    | cons t ts ih =>
      intro w
      rw [List.foldl_cons, ih, Walk.renumbered_bindImport, List.map_cons, List.foldl_cons]
  rw [Walk.start, hroot]
  exact hrun _ _

namespace Tree.ImportsMoved

variable {root root' : Tree} (h : root.ImportsMoved root')
include h

theorem placed_code :
    ((placed 1 root.children).filter (·.2.holdsCode)).map (·.2.unplaced) =
      ((placed 1 root'.children).filter (·.2.holdsCode)).map (·.2.unplaced) := by
  have hfilter : ∀ ts : List Tree, ((placed 1 ts).filter (·.2.holdsCode)).map (·.2.unplaced) =
      (ts.filter (·.holdsCode)).map Tree.unplaced := by
    intro ts
    nth_rewrite 2 [← placed_map_snd 1 ts]
    rw [List.filter_map, List.map_map]
    rfl
  rw [hfilter, hfilter, h.code]

theorem codeSites_length : root.codeSites.length = root'.codeSites.length := by
  have hlength : ∀ (above : List (Nat × Tree)) (ps : List (Nat × Tree)),
      (ps.flatMap fun p => sitesFrom above p.1 p.2).length =
        ((ps.map (·.2.unplaced)).map (·.sites.length)).sum := by
    intro above ps
    rw [List.length_flatMap, List.map_map]
    congr 1
    refine List.map_congr_left fun p _ => ?_
    exact length_sitesFrom (by simp)
  rw [Tree.codeSites, Tree.codeSites, hlength, hlength, h.placed_code]

/-- The walks over both programs do the same under numbers that leave out what is passed by. -/
theorem walkModule_renumbered (path : String) : ∃ f f' : Nat → Nat,
    (walkModule path root).renumbered f = (walkModule path root').renumbered f' := by
  refine ⟨root.codeNumber, root'.codeNumber, ?_⟩
  have hnumbers := map_codeNumber root
  rw [h.codeSites_length, ← map_codeNumber root'] at hnumbers
  obtain ⟨hzero, hindex⟩ := List.cons.inj hnumbers
  rw [List.map_map, List.map_map] at hindex
  have habove : [(0, root)].map (Prod.map root.codeNumber Tree.outlined) =
      [(0, root')].map (Prod.map root'.codeNumber Tree.outlined) := by
    simp [hzero, Tree.outlined, h.program, h.program', h.nameless, h.nameless']
  have hcode : root.codeSites.map (Site.renumbered root.codeNumber) =
      root'.codeSites.map (Site.renumbered root'.codeNumber) :=
    flatMap_renumbered habove h.placed_code hindex
  rw [walkModule, walkModule, Walk.renumbered_finish (codeNumber_injective root),
    Walk.renumbered_finish (codeNumber_injective root'), foldl_visit_codeSites h.program,
    foldl_visit_codeSites h.program', Walk.renumbered_foldl_visit (codeNumber_injective root),
    Walk.renumbered_foldl_visit (codeNumber_injective root'), hcode, renumbered_start _ _ h.program,
    renumbered_start _ _ h.program', h.imports]

end Tree.ImportsMoved

/-- Where the imports of a program stand makes no difference. -/
theorem analysis_of_importsMoved {root root' : Tree} (h : root.ImportsMoved root') (path : String)
    (d : Dialect) (content content' : String) :
    ((walkModule path root).analysis d content).imports =
      ((walkModule path root').analysis d content').imports ∧
    ((walkModule path root).analysis d content).calls =
      ((walkModule path root').analysis d content').calls ∧
    ((walkModule path root).analysis d content).functions.map unplacedRecord =
      ((walkModule path root').analysis d content').functions.map unplacedRecord := by
  obtain ⟨f, f', hwalk⟩ := h.walkModule_renumbered path
  have himports := congrArg Walk.imports hwalk
  have hcalls := congrArg Walk.calls hwalk
  have hrecords := congrArg (fun w : Walk => w.entries.map (·.record)) hwalk
  simp only [Walk.renumbered, List.map_map, Function.comp_def, Entry.renumbered] at hrecords
  refine ⟨himports, hcalls, ?_⟩
  simpa only [Walk.analysis, List.map_map, Function.comp_def] using hrecords

/-! ## Two statements in both orders -/

open Assembly (leaf phrase callOf)

/-- An import of `f` from `./m`, with attributes. -/
def importOfF (attributes : List Tree) : Tree :=
  phrase .importStatement (
    [phrase .importClause [phrase .namedImports [
        phrase .importSpecifier [leaf .identifier "f" (some .name)] none] none] none,
      phrase .string [leaf .token "'" none, leaf .stringText "./m" none, leaf .token "'" none]
        (some .source)] ++ attributes) none

def callerOfF : Tree :=
  phrase .expressionStatement [phrase .parenthesized [phrase .functionExpression [
    phrase .statementBlock [phrase .expressionStatement [callOf "f"] none] (some .body)] none] none] none

/-- A call before the import of its callee is found as one after it. -/
theorem calls_before_import :
    (phrase .program [importOfF [], callerOfF] none).ImportsMoved
      (phrase .program [callerOfF, importOfF []] none) ∧
    ((walkModule "a.ts" (phrase .program [callerOfF, importOfF []] none)).analysis .typescript "").calls =
      [{ caller := "a.ts::anonymous_0", localName := "f", importedName := some "f"
         source := some "./m" }] := by
  have hmoved : (phrase .program [importOfF [], callerOfF] none).ImportsMoved
      (phrase .program [callerOfF, importOfF []] none) := ⟨rfl, rfl, rfl, rfl, rfl, rfl⟩
  obtain ⟨-, hcalls, -⟩ := analysis_of_importsMoved hmoved "a.ts" .typescript "" ""
  refine ⟨hmoved, ?_⟩
  rw [← hcalls]
  decide +kernel

def arrowAttribute : Tree :=
  phrase .importAttribute [phrase .object [phrase .pair [
    leaf .propertyIdentifier "type" (some .key),
    phrase .arrowFunction [leaf .number "1" (some .body)] (some .value)] none] none] none

/-- The functions without names are counted in the order of the text, so an import that holds one
cannot be moved before another one. -/
theorem records_of_import_with_arrow :
    [importOfF [arrowAttribute], callerOfF].filter (·.kind == .importStatement) =
      [callerOfF, importOfF [arrowAttribute]].filter (·.kind == .importStatement) ∧
    [importOfF [arrowAttribute], callerOfF].filter (·.kind != .importStatement) =
      [callerOfF, importOfF [arrowAttribute]].filter (·.kind != .importStatement) ∧
    ((walkModule "a.ts" (phrase .program [importOfF [arrowAttribute], callerOfF] none)).analysis
      .typescript "").functions.map (fun r => (r.id, r.kind)) =
        [("a.ts::anonymous_0", .arrow), ("a.ts::anonymous_1", .function)] ∧
    ((walkModule "a.ts" (phrase .program [callerOfF, importOfF [arrowAttribute]] none)).analysis
      .typescript "").functions.map (fun r => (r.id, r.kind)) =
        [("a.ts::anonymous_0", .function), ("a.ts::anonymous_1", .arrow)] :=
  ⟨rfl, rfl, by decide +kernel, by decide +kernel⟩

end CodeAtlas.Script
