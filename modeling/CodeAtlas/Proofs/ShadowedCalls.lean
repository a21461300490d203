import CodeAtlas.Proofs.CallTrace
import CodeAtlas.Proofs.ExportedCalls

/-!
# Calls of names that a scope declares

A call whose name is declared by a scope around it records nothing, if the declaration has a recognised
form. Where every declaration around the call has another form, the name is taken for the import of
the same name (`shadowedCall_recorded_iff`).
-/

namespace CodeAtlas.Script

/-- A scope around the call declares its name. In a recognised form this keeps the call from being
recorded. If all declarations around the call have other forms, it is recorded exactly if the walk has
bound the name to an import. -/
theorem shadowedCall_recorded_iff (path : String) {root : Tree} {s : Site} {x : String}
    (hs : s ∈ root.sites) (hcall : s.Calls x) {t : Tree} {form : LocalForm} (ht : t ∈ s.scopes)
    (hdeclares : t.Declares form x) :
    (walkModule path root).calls = root.sites.flatMap (root.callsAt path) ∧
    (form.recognised = true → root.callsAt path s = []) ∧
    ((∀ t' ∈ s.scopes, ∀ form', t'.Declares form' x → form'.recognised = false) →
      (root.callsAt path s ≠ [] ↔ (root.walkTo path s.index).Reaches x)) := by
  refine ⟨walkModule_calls path root, fun hform => ?_, fun hothers => ⟨?_, ?_⟩⟩
  · exact callsAt_eq_nil path hcall (.inl (locallyBound_iff.mpr ⟨t, ht, form, hform, hdeclares⟩))
  · intro hne
    by_contra hreach
    exact hne (callsAt_eq_nil path hcall (.inr hreach))
  · rintro ⟨hname, spec, b, hbound, hspec⟩
    have hfree := locallyBound_eq_false hothers
    obtain ⟨id, -, heq⟩ := callsAt_of_bound path hcall hs hfree hname hbound hspec
    simp [heq]

/-! ## A function that calls what it declares -/

open Assembly (leaf phrase callOf)

theorem leaf_text (k : Kind) (x : String) (role : Option Role) : (leaf k x role).text = x := by
  simp [leaf, Tree.text, Tree.textOfAll]

theorem names_leaf (x : String) (role : Option Role) : (leaf .identifier x role).Names x := by
  have hname : (leaf .identifier x role).Names (leaf .identifier x role).text := .name (.inl rfl)
  rwa [leaf_text] at hname

def sourceText (role : Option Role) : Tree :=
  phrase .string [leaf .token "'" none, leaf .stringText "./m" none, leaf .token "'" none] role

def importingFunction (parameters body : List Tree) : Tree :=
  phrase .program [
    phrase .importStatement [
      phrase .importClause [phrase .namedImports [
        phrase .importSpecifier [leaf .identifier "x" (some .name)] none] none] none,
      sourceText (some .source)] none,
    phrase .functionDeclaration [leaf .identifier "f" (some .name),
      phrase .formalParameters parameters (some .parameters),
      phrase .statementBlock body (some .body)] none] none

def callStatement : Tree := phrase .expressionStatement [callOf "x"] none

/-- The parameter is `{ k: [x] }`. -/
def takingApart : Tree :=
  phrase .objectPattern [phrase .pairPattern [leaf .propertyIdentifier "k" (some .key),
    phrase .arrayPattern [leaf .identifier "x" none] (some .value)] none] none

theorem takingApart_names : takingApart.Names "x" :=
  .group (.inr (.inl rfl)) List.mem_cons_self <| .pair rfl rfl <|
    .group (.inr (.inr (.inl rfl))) List.mem_cons_self <| names_leaf "x" none

theorem shadowedCall_of_parameter :
    let root := importingFunction [takingApart] [callStatement]
    ∃ s, root.sites[20]? = some s ∧ s.Calls "x" ∧ (∃ t ∈ s.scopes, t.Declares .parameter "x") ∧
      (root.walkTo "a.ts" s.index).Reaches "x" ∧ root.callsAt "a.ts" s = [] := by
  intro root
  refine ⟨root.sites.get ⟨20, by decide⟩, rfl, ?_⟩
  generalize hs : root.sites.get ⟨20, by decide⟩ = s
  have hcall : s.Calls "x" := by
    subst hs
    exact ⟨rfl, _, rfl, rfl, by decide +kernel⟩
  have hdeclares : ∃ t ∈ s.scopes, t.Declares .parameter "x" := by
    subst hs
    exact ⟨_, List.mem_of_getElem? (i := 2) rfl,
      .parameter rfl (.inl rfl) rfl (.group (.inl rfl) List.mem_cons_self takingApart_names)⟩
  have hreaches : (root.walkTo "a.ts" s.index).Reaches "x" := by
    subst hs
    exact ⟨by decide, ⟨"x", "x", .named, none⟩,
      { source := "./m", specifiers := [⟨"x", "x", .named, none⟩] }, by decide +kernel, by decide⟩
  obtain ⟨t, ht, hparameter⟩ := hdeclares
  have hmem : s ∈ root.sites := hs ▸ List.get_mem ..
  exact ⟨hcall, ⟨t, ht, hparameter⟩, hreaches,
    (shadowedCall_recorded_iff "a.ts" hmem hcall ht hparameter).2.1 rfl⟩

/-- The loop `for (var x of xs) {}`. -/
def varLoop : Tree :=
  phrase .forInStatement [leaf .token "var" (some .keyword), leaf .identifier "x" (some .left),
    leaf .identifier "xs" none, phrase .statementBlock [] (some .body)] none

def declaringSwitch : Tree :=
  phrase .switchStatement [phrase .switchBody [phrase .switchCase [
    phrase .lexicalDeclaration [
      phrase .variableDeclarator [leaf .identifier "x" (some .name)] none] none,
    callStatement] none] (some .body)] none

/-- Behind the loop, and inside the `switch`, the name of the local variable is taken for the import. -/
theorem shadowedCall_recorded_of_loop_or_switch :
    let call : CallSite := ⟨"a.ts::f", "x", some "x", some "./m", none⟩
    let looping := importingFunction [] [varLoop, callStatement]
    let switching := importingFunction [] [declaringSwitch]
    (∃ s, looping.sites[20]? = some s ∧ s.Calls "x" ∧
      (∃ t ∈ s.scopes, t.Declares .hoistedLoop "x") ∧ looping.callsAt "a.ts" s = [call]) ∧
    ∃ s, switching.sites[21]? = some s ∧ s.Calls "x" ∧
      (∃ t ∈ s.scopes, t.Declares .caseStatement "x") ∧ switching.callsAt "a.ts" s = [call] := by
  intro call looping switching
  constructor
  · refine ⟨looping.sites.get ⟨20, by decide⟩, rfl, ⟨rfl, _, rfl, rfl, by decide +kernel⟩,
      ⟨_, List.mem_of_getElem? (i := 2) rfl, ?_⟩, by decide +kernel⟩
    have hloop : varLoop.VarLoop "x" := ⟨rfl, ⟨_, rfl, by decide⟩, _, rfl, names_leaf "x" _⟩
    exact .hoistedLoop rfl rfl rfl List.mem_cons_self (.here hloop)
  · refine ⟨switching.sites.get ⟨21, by decide⟩, rfl, ⟨rfl, _, rfl, rfl, by decide +kernel⟩,
      ⟨_, List.mem_of_getElem? (i := 2) rfl, ?_⟩, by decide +kernel⟩
    exact .caseStatement rfl List.mem_cons_self (.inl rfl) List.mem_cons_self
      (.inl (.declarators rfl ⟨_, List.mem_cons_self, rfl, _, rfl, names_leaf "x" _⟩))

end CodeAtlas.Script
