import CodeAtlas.Proofs.ExportChains
import CodeAtlas.Proofs.ExportedCalls
import CodeAtlas.Proofs.ModuleReexports

/-!
# Star exports beside explicit ones

A module can pass a name on explicitly and through `export *` as well. The lookup takes the first offer
that leads to a record, so a star wins over an explicit offer behind it
(`lookupFrom_of_explicit_reexport`). A name that is imported and then exported is behind all stars.
-/

namespace CodeAtlas.Assembly
open Script

/-! ## The offers of a resolved module -/

theorem analysisOf?_resolveImports (r : Resolver) (analyses : List FileAnalysis) (path : String) :
    analysisOf? (analyses.map (resolveImports r)) path =
      (analysisOf? analyses path).map (resolveImports r) := by
  rw [analysisOf?, ← List.map_reverse, List.find?_map]
  rfl

def leadsTo? (r : Resolver) (path name : String) (o : String × Specifier) : Option (String × String) :=
  (r.resolve path o.1).bind fun target => (o.2.passesOn? name).map (target, ·)

theorem passedOn_bindTarget (r : Resolver) (path name : String) {b : ImportBinding}
    (h : b.reexport = true → b.target = none) : (bindTarget r path b).passedOn name =
      (offersOf ([b].filter (·.reexport))).filterMap (leadsTo? r path name) := by
  cases hreexport : b.reexport with
  | false =>
    obtain ⟨target, hb⟩ := bindTarget_eq r path b
    simp [hb, ImportBinding.passedOn, hreexport, offersOf]
  | true =>
    have huntied := h hreexport
    have hoffers : offersOf ([b].filter (·.reexport)) = b.specifiers.map (b.source, ·) := by
      simp [offersOf, hreexport]
    rw [hoffers, List.filterMap_map, bindTarget, importTarget_eq]
    cases hresolve : r.resolve path b.source with
    | none => simp [ImportBinding.passedOn, huntied, leadsTo?, hresolve, Function.comp_def]
    | some t =>
      simp only [ImportBinding.passedOn, hreexport, List.filterMap_map]
      refine List.filterMap_congr fun s _ => ?_
      simp only [Function.comp_apply, leadsTo?, hresolve, Option.bind_some]
      rfl

theorem passedOn_resolveImports {r : Resolver} {analyses : List FileAnalysis} {path : String}
    {root : Tree} {d : Dialect} {content : String}
    (hfile : analysisOf? analyses path = some ((walkModule path root).analysis d content))
    (name : String) : passedOn (analyses.map (resolveImports r)) path name =
      root.offers.filterMap (leadsTo? r path name) := by
  have huntied : ∀ b ∈ (walkModule path root).imports, b.reexport = true → b.target = none :=
    fun b hb hreexport => Walk.walkModule_reexports_untied path root b
      (List.mem_filter.mpr ⟨hb, hreexport⟩)
  rw [passedOn, analysisOf?_resolveImports, hfile, Option.map_some, Option.toList_some,
    List.flatMap_singleton, ← Walk.walkModule_offers path root, Walk.reexports]
  show ((walkModule path root).imports.map (bindTarget r (walkModule path root).path)).flatMap _ = _
  rw [Walk.walkModule_path]
  generalize (walkModule path root).imports = imports at huntied
  induction imports with
  | nil => rfl
  | cons b imports ih =>
    have hb := passedOn_bindTarget r path name (huntied b List.mem_cons_self)
    have hrest := ih fun c hc => huntied c (List.mem_cons_of_mem b hc)
    have hsplit : offersOf ((b :: imports).filter (·.reexport)) =
        offersOf ([b].filter (·.reexport)) ++ offersOf (imports.filter (·.reexport)) := by
      rw [← List.singleton_append, List.filter_append]
      exact List.flatMap_append
    rw [List.map_cons, List.flatMap_cons, hb, hrest, hsplit, List.filterMap_append]

/-! ## Which offer wins -/

section
variable {index : ExportIndex} {r : Resolver} {analyses : List FileAnalysis} {path name : String}

def through? (index : ExportIndex) (r : Resolver) (analyses : List FileAnalysis) (path name : String)
    (o : String × Specifier) : Option Place :=
  (leadsTo? r path name o).bind fun x => lookupFrom index (analyses.map (resolveImports r)) 1 x.1 x.2

/-- The record that a name has through the first star that leads to one. Stars do not pass on the
default. -/
def starred? (index : ExportIndex) (r : Resolver) (analyses : List FileAnalysis) (path name : String)
    (offers : List (String × Specifier)) : Option Place :=
  if name = "default" then none
  else (offers.filter (·.2.localName == "*")).findSome? fun o => (r.resolve path o.1).bind fun target =>
    lookupFrom index (analyses.map (resolveImports r)) 1 target name

theorem lookupFrom_eq_through? {root : Tree} {d : Dialect} {content : String}
    (hfile : analysisOf? analyses path = some ((walkModule path root).analysis d content)) :
    lookupFrom index (analyses.map (resolveImports r)) 0 path name =
      (index.find? path name).or (root.offers.findSome? (through? index r analyses path name)) := by
  rw [lookupFrom_of_lt (by decide), passedOn_resolveImports hfile, findSome?_filterMap]
  rfl

/-- An offer that does not name what is looked up can only be a star. -/
theorem through?_of_other {o : String × Specifier} (hwhole : o.2.binding = .named ∨ o.2.importedName = "*")
    (hother : o.2.localName = name → o.2.binding ≠ .named) :
    through? index r analyses path name o = starred? index r analyses path name [o] := by
  have hpasses : o.2.passesOn? name =
      if o.2.localName = "*" ∧ name ≠ "default" then some name else none := by
    have hfirst : ¬ (o.2.localName = name ∧ o.2.importedName ≠ "*") := by
      rintro ⟨hlocal, himported⟩
      exact hother hlocal (hwhole.resolve_right himported)
    unfold Specifier.passesOn?
    rw [if_neg (by simpa using hfirst)]
    simp
  unfold through? leadsTo? starred?
  rw [hpasses]
  by_cases hdefault : name = "default"
  · simp [hdefault]
  · by_cases hstar : o.2.localName = "*"
    · cases hresolve : r.resolve path o.1 <;> simp [hdefault, hstar, hresolve]
    · simp [hstar]

theorem starred?_append (offers offers' : List (String × Specifier)) :
    starred? index r analyses path name (offers ++ offers') =
      (starred? index r analyses path name offers).or (starred? index r analyses path name offers') := by
  unfold starred?
  split
  · rfl
  · rw [List.filter_append, List.findSome?_append]

theorem findSome?_through?_of_others {offers : List (String × Specifier)}
    (hwhole : ∀ o ∈ offers, o.2.binding = .named ∨ o.2.importedName = "*")
    (hothers : ∀ o ∈ offers, o.2.localName = name → o.2.binding ≠ .named) :
    offers.findSome? (through? index r analyses path name) =
      starred? index r analyses path name offers := by
  induction offers with
  | nil => simp [starred?]
  | cons o offers ih =>
    have ho : through? index r analyses path name o = starred? index r analyses path name [o] :=
      through?_of_other (hwhole o List.mem_cons_self) (hothers o List.mem_cons_self)
    rw [← List.singleton_append, List.findSome?_append, starred?_append,
      ih (fun x hx => hwhole x (List.mem_cons_of_mem o hx)) fun x hx =>
        hothers x (List.mem_cons_of_mem o hx), ← ho]
    simp

variable {root : Tree} {d : Dialect} {content : String} {before after : List (String × Specifier)}
  {source target : String} {spec : Specifier} {place : Place}
  (hfile : analysisOf? analyses path = some ((walkModule path root).analysis d content))
  (hoffers : root.offers = before ++ (source, spec) :: after)
  (hexplicit : spec.localName = name ∧ spec.binding = .named)
  (honly : ∀ o ∈ before ++ after, o.2.localName = name → o.2.binding ≠ .named)
  (htarget : r.resolve path source = some target)
  (hplace : lookupFrom index (analyses.map (resolveImports r)) 1 target spec.importedName = some place)

include hexplicit htarget hplace in
/-- An explicit offer is followed, unless it asks for a star. -/
theorem through?_of_explicit : through? index r analyses path name (source, spec) =
    if spec.importedName ≠ "*" ∨ name = "*" then some place else none := by
  have hpasses : spec.passesOn? name =
      if spec.importedName ≠ "*" ∨ name = "*" then some spec.importedName else none := by
    unfold Specifier.passesOn?
    rw [hexplicit.1]
    by_cases himported : spec.importedName = "*"
    · by_cases hname : name = "*"
      · simp [himported, hname]
      · simp [himported, hname]
    · simp [himported]
  rw [through?, leadsTo?, hpasses, htarget]
  split
  · simpa using hplace
  · rfl

include hfile hoffers hexplicit honly htarget hplace in
theorem lookupFrom_eq_of_explicit : lookupFrom index (analyses.map (resolveImports r)) 0 path name =
    (index.find? path name).or
      (if spec.importedName ≠ "*" ∨ name = "*" then
        (starred? index r analyses path name before).or (some place)
      else starred? index r analyses path name (before ++ after)) := by
  have hwhole : ∀ o ∈ before ++ after, o.2.binding = .named ∨ o.2.importedName = "*" := by
    intro o ho
    have hmem : o ∈ root.offers := by
      rw [hoffers]
      rcases List.mem_append.mp ho with ho | ho
      · exact List.mem_append_left _ ho
      · exact List.mem_append_right _ (List.mem_cons_of_mem _ ho)
    exact offers_named_or_whole hmem
  -- No other offer has the name, so on both sides of the explicit one only stars can lead anywhere.
  have others : ∀ offers ⊆ before ++ after, offers.findSome? (through? index r analyses path name) =
      starred? index r analyses path name offers := fun offers hsub =>
    findSome?_through?_of_others (fun o ho => hwhole o (hsub ho)) fun o ho => honly o (hsub ho)
  rw [lookupFrom_eq_through? hfile, hoffers, List.findSome?_append, List.findSome?_cons,
    through?_of_explicit hexplicit htarget hplace, others before (List.subset_append_left ..),
    others after (List.subset_append_right ..)]
  by_cases hfollowed : spec.importedName ≠ "*" ∨ name = "*"
  · rw [if_pos hfollowed, if_pos hfollowed]
  · rw [if_neg hfollowed, if_neg hfollowed, starred?_append]

end

/-- A module that passes a name on explicitly once gives the record that the explicit offer leads to
exactly if it has no record of its own, or that one, and the stars before the offer lead to none, or to
that one first. An explicit offer of what is called `*` elsewhere is not followed at all. -/
theorem lookupFrom_of_explicit_reexport {index : ExportIndex} {r : Resolver}
    {analyses : List FileAnalysis} {path name : String} {root : Tree} {d : Dialect} {content : String}
    {before after : List (String × Specifier)} {source target : String} {spec : Specifier} {place : Place}
    (hfile : analysisOf? analyses path = some ((walkModule path root).analysis d content))
    (hoffers : root.offers = before ++ (source, spec) :: after)
    (hexplicit : spec.localName = name ∧ spec.binding = .named)
    (honly : ∀ o ∈ before ++ after, o.2.localName = name → o.2.binding ≠ .named)
    (htarget : r.resolve path source = some target)
    (hplace : lookupFrom index (analyses.map (resolveImports r)) 1 target spec.importedName = some place) :
    lookupFrom index (analyses.map (resolveImports r)) 0 path name = some place ↔
      index.find? path name = some place ∨ index.find? path name = none ∧
        if spec.importedName ≠ "*" ∨ name = "*" then
          starred? index r analyses path name before = some place ∨
            starred? index r analyses path name before = none
        else starred? index r analyses path name (before ++ after) = some place := by
  rw [lookupFrom_eq_of_explicit hfile hoffers hexplicit honly htarget hplace, Option.or_eq_some_iff]
  split
  · rw [Option.or_eq_some_iff, and_iff_left rfl]
  · rfl

/-! ## A star on each side -/

def sourceOf (text : String) : Tree :=
  phrase .string [leaf .token "'" none, leaf .stringText text none, leaf .token "'" none] (some .source)

def starFrom (source : String) : Tree :=
  phrase .exportStatement [leaf .token "export" none, leaf .token "*" none, sourceOf source] none

def listOfF : Tree :=
  phrase .exportClause [phrase .exportSpecifier [leaf .identifier "f" (some .name)] none] none

/-- The statement `export { f } from './b'`. -/
def clauseFromB : Tree :=
  phrase .exportStatement [leaf .token "export" none, listOfF, sourceOf "./b"] none

/-- The statements `import { f } from './b'` and `export { f }`. -/
def importedClause : List Tree :=
  [phrase .importStatement [
      phrase .importClause [phrase .namedImports [
        phrase .importSpecifier [leaf .identifier "f" (some .name)] none] none] none,
      sourceOf "./b"] none,
    phrase .exportStatement [leaf .token "export" none, listOfF] none]

def besideTwo (passing : Tree) : List FileAnalysis :=
  [(walkModule "a.ts" (phrase .program [exportOfFunction] none)).analysis .typescript "",
    (walkModule "b.ts" (phrase .program [exportOfFunction] none)).analysis .typescript "",
    (walkModule "p.ts" passing).analysis .typescript ""]

def threeFiles : Resolver := ⟨["a.ts", "b.ts", "p.ts"], []⟩

def recordOfF (passing : Tree) (depth : Int) (path : String) : Option Place :=
  lookupFrom (ExportIndex.ofAnalyses ((besideTwo passing).map (resolveImports threeFiles)))
    ((besideTwo passing).map (resolveImports threeFiles)) depth path "f"

def explicitOffer : String × Specifier := ("./b", ⟨"f", "f", .named, none⟩)

def starOffer (source : String) : String × Specifier := (source, ⟨"*", "*", .wholeModule, none⟩)

/-- The star before the clause leads to no file and the star behind it to another `f`. -/
def starsAround : Tree :=
  phrase .program [starFrom "./q", clauseFromB, starFrom "./a"] none

theorem lookupFrom_of_stars_around :
    starsAround.offers = [starOffer "./q"] ++ explicitOffer :: [starOffer "./a"] ∧
      recordOfF starsAround 1 "b.ts" = some ⟨1, 0⟩ ∧ recordOfF starsAround 0 "p.ts" = some ⟨1, 0⟩ := by
  have hfile : analysisOf? (besideTwo starsAround) "p.ts" =
      some ((walkModule "p.ts" starsAround).analysis .typescript "") := rfl
  have hoffers : starsAround.offers = [starOffer "./q"] ++ explicitOffer :: [starOffer "./a"] := by
    decide +kernel
  have honly : ∀ o ∈ [starOffer "./q"] ++ [starOffer "./a"], o.2.localName = "f" →
      o.2.binding ≠ .named := by
    decide
  have htarget : threeFiles.resolve "p.ts" "./b" = some "b.ts" := by
    decide +kernel
  have hplace : recordOfF starsAround 1 "b.ts" = some ⟨1, 0⟩ := by
    decide +kernel
  refine ⟨hoffers, hplace, ?_⟩
  refine (lookupFrom_of_explicit_reexport hfile hoffers ⟨rfl, rfl⟩ honly htarget hplace).mpr
    (.inr ⟨?_, ?_⟩)
  · decide +kernel
  · decide +kernel

/-- The module has no `f` of its own and passes it on explicitly once, from `b.ts`, but the lookup gives
the function of `a.ts`. -/
structure StarWins (passing : Tree) : Prop where
  offers : passing.offers = [starOffer "./a", explicitOffer]
  target : threeFiles.resolve "p.ts" "./b" = some "b.ts"
  explicit : recordOfF passing 1 "b.ts" = some ⟨1, 0⟩
  own : passing.declaredAs? "f" = none
  found : recordOfF passing 0 "p.ts" = some ⟨0, 0⟩

def starBeforeClause : Tree :=
  phrase .program [starFrom "./a", clauseFromB] none

def starBehindImported : Tree :=
  phrase .program (importedClause ++ [starFrom "./a"]) none

theorem explicit_reexport_lost_to_star : StarWins starBeforeClause ∧ StarWins starBehindImported := by
  have htarget : threeFiles.resolve "p.ts" "./b" = some "b.ts" := by
    decide +kernel
  constructor
  · refine ⟨?_, htarget, ?_, rfl, ?_⟩
    · decide +kernel
    · decide +kernel
    · decide +kernel
  · refine ⟨?_, htarget, ?_, rfl, ?_⟩
    · decide +kernel
    · decide +kernel
    · decide +kernel

end CodeAtlas.Assembly
