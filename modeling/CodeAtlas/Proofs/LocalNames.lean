import CodeAtlas.Script.Scope

/-!
# Declarations of local names

How a name can be declared for the code inside a scope, told by the shape of the tree (`Declares`).
The names that the walk takes for local are those declared in a recognised form (`binds_iff`).
-/

namespace CodeAtlas.Script

namespace Tree

/-! ## Patterns -/

inductive Names : Tree → String → Prop
  | name {t : Tree} (hk : t.kind = .identifier ∨ t.kind = .shorthandPattern) : Names t t.text
  | withDefault {t p : Tree} {x : String}
      (hk : t.kind = .assignmentPattern ∨ t.kind = .objectAssignmentPattern)
      (hp : t.child? .left = some p) (h : Names p x) : Names t x
  | pair {t p : Tree} {x : String} (hk : t.kind = .pairPattern) (hp : t.child? .value = some p)
      (h : Names p x) : Names t x
  | parameter {t p : Tree} {x : String} (hk : t.kind = .requiredParameter ∨ t.kind = .optionalParameter)
      (hp : t.child? .pattern = some p) (h : Names p x) : Names t x
  | group {t p : Tree} {x : String}
      (hk : t.kind = .formalParameters ∨ t.kind = .objectPattern ∨ t.kind = .arrayPattern ∨
        t.kind = .restPattern)
      (hp : p ∈ t.children) (h : Names p x) : Names t x

theorem patternNamesIn_eq (r : Role) : ∀ ts : List Tree,
    patternNamesIn r ts = ((ts.find? (·.role == some r)).map patternNames).getD []
  | [] => rfl
  | t :: ts => by
    unfold patternNamesIn
    rw [List.find?_cons, patternNamesIn_eq r ts]
    cases t.role == some r <;> rfl

theorem patternNamesOfAll_eq : ∀ ts : List Tree, patternNamesOfAll ts = ts.flatMap patternNames
  | [] => rfl
  | t :: ts => by
    unfold patternNamesOfAll
    rw [List.flatMap_cons, patternNamesOfAll_eq ts]

theorem mem_namesInRole {t : Tree} {r : Role} {x : String} :
    x ∈ t.namesInRole r ↔ ∃ p, t.child? r = some p ∧ x ∈ p.patternNames := by
  rw [namesInRole, patternNamesIn_eq, child?]
  cases t.children.find? (·.role == some r) <;> simp

theorem patternNames_eq (t : Tree) : t.patternNames =
    match t.kind with
    | .identifier | .shorthandPattern => [t.text]
    | .assignmentPattern | .objectAssignmentPattern => t.namesInRole .left
    | .pairPattern => t.namesInRole .value
    | .requiredParameter | .optionalParameter => t.namesInRole .pattern
    | .formalParameters | .objectPattern | .arrayPattern | .restPattern =>
      t.children.flatMap patternNames
    | _ => [] := by
  obtain ⟨kind, role, span, own, children⟩ := t
  unfold patternNames
  generalize hall : patternNamesOfAll children = all
  rw [patternNamesOfAll_eq] at hall
  subst hall
  rfl

theorem Names.mem {t : Tree} {x : String} (h : t.Names x) : x ∈ t.patternNames := by
  induction h with
  | name hk =>
    rw [patternNames_eq]
    rcases hk with hk | hk <;> simp [hk]
  | withDefault hk hp _ ih =>
    rw [patternNames_eq]
    rcases hk with hk | hk <;> simp only [hk] <;> exact mem_namesInRole.mpr ⟨_, hp, ih⟩
  | pair hk hp _ ih =>
    rw [patternNames_eq]
    simp only [hk]
    exact mem_namesInRole.mpr ⟨_, hp, ih⟩
  | parameter hk hp _ ih =>
    rw [patternNames_eq]
    rcases hk with hk | hk <;> simp only [hk] <;> exact mem_namesInRole.mpr ⟨_, hp, ih⟩
  | group hk hp _ ih =>
    rw [patternNames_eq]
    rcases hk with hk | hk | hk | hk <;> simp only [hk] <;> exact List.mem_flatMap.mpr ⟨_, hp, ih⟩

mutual

theorem names_of_mem {x : String} : ∀ t : Tree, x ∈ patternNames t → Names t x
  | ⟨kind, role, span, own, children⟩ => by
    intro h
    have below : ∀ p ∈ children, x ∈ p.patternNames → p.Names x := names_of_mem_all children
    have inRole : ∀ r, x ∈ namesInRole ⟨kind, role, span, own, children⟩ r →
        ∃ p, child? ⟨kind, role, span, own, children⟩ r = some p ∧ p.Names x := by
      intro r hr
      obtain ⟨p, hp, hx⟩ := mem_namesInRole.mp hr
      exact ⟨p, hp, below p (List.mem_of_find?_eq_some hp) hx⟩
    have inGroup : x ∈ children.flatMap patternNames → ∃ p ∈ children, p.Names x := by
      intro hg
      obtain ⟨p, hp, hx⟩ := List.mem_flatMap.mp hg
      exact ⟨p, hp, below p hp hx⟩
    rw [patternNames_eq] at h
    split at h
    · rw [List.mem_singleton.mp h]
      exact .name (.inl ‹_›)
    · rw [List.mem_singleton.mp h]
      exact .name (.inr ‹_›)
    · obtain ⟨p, hp, hx⟩ := inRole .left h
      exact .withDefault (.inl ‹_›) hp hx
    · obtain ⟨p, hp, hx⟩ := inRole .left h
      exact .withDefault (.inr ‹_›) hp hx
    · obtain ⟨p, hp, hx⟩ := inRole .value h
      exact .pair ‹_› hp hx
    · obtain ⟨p, hp, hx⟩ := inRole .pattern h
      exact .parameter (.inl ‹_›) hp hx
    · obtain ⟨p, hp, hx⟩ := inRole .pattern h
      exact .parameter (.inr ‹_›) hp hx
    · obtain ⟨p, hp, hx⟩ := inGroup h
      exact .group (.inl ‹_›) hp hx
    · obtain ⟨p, hp, hx⟩ := inGroup h
      exact .group (.inr (.inl ‹_›)) hp hx
    · obtain ⟨p, hp, hx⟩ := inGroup h
      exact .group (.inr (.inr (.inl ‹_›))) hp hx
    · obtain ⟨p, hp, hx⟩ := inGroup h
      exact .group (.inr (.inr (.inr ‹_›))) hp hx
    · cases h

theorem names_of_mem_all {x : String} : ∀ ts : List Tree, ∀ p ∈ ts, x ∈ p.patternNames → p.Names x
  | [] => by simp
  | t :: ts => by
    intro p hp hx
    rcases List.mem_cons.mp hp with heq | hp
    · rw [heq] at hx ⊢
      exact names_of_mem t hx
    · exact names_of_mem_all ts p hp hx

end

theorem mem_patternNames_iff {t : Tree} {x : String} : x ∈ t.patternNames ↔ t.Names x :=
  ⟨names_of_mem t, Names.mem⟩

theorem mem_namesInRole_iff {t : Tree} {r : Role} {x : String} :
    x ∈ t.namesInRole r ↔ ∃ p, t.child? r = some p ∧ p.Names x := by
  simp only [mem_namesInRole, mem_patternNames_iff]

/-! ## Variables -/

def HasVariable (t : Tree) (x : String) : Prop :=
  ∃ d ∈ t.children, d.kind = .variableDeclarator ∧ ∃ p, d.child? .name = some p ∧ p.Names x

theorem mem_declaratorNames_iff {t : Tree} {x : String} :
    x ∈ t.declaratorNames ↔ t.HasVariable x := by
  simp only [declaratorNames, List.mem_flatMap, HasVariable]
  constructor
  · rintro ⟨d, hd, hx⟩
    split at hx
    · rename_i hk
      exact ⟨d, hd, by simpa using hk, mem_namesInRole_iff.mp hx⟩
    · cases hx
  · rintro ⟨d, hd, hk, hx⟩
    exact ⟨d, hd, by simpa [hk] using mem_namesInRole_iff.mpr hx⟩

/-- The property holds of a node at or below the tree, outside of nested functions and classes. -/
inductive Hoists (P : Tree → Prop) : Tree → Prop
  | here {t : Tree} (h : P t) : Hoists P t
  | inside {t c : Tree} (hk : (t.kind.isFunction || t.kind.isClass) = false) (hc : c ∈ t.children)
      (h : Hoists P c) : Hoists P t

def VarStatement (t : Tree) (x : String) : Prop :=
  t.kind = .variableDeclaration ∧ t.HasVariable x

theorem hoistedNamesOfAll_eq : ∀ ts : List Tree, hoistedNamesOfAll ts = ts.flatMap hoistedNames
  | [] => rfl
  | t :: ts => by
    unfold hoistedNamesOfAll
    rw [List.flatMap_cons, hoistedNamesOfAll_eq ts]

theorem mem_hoistedNames {t : Tree} {x : String} : x ∈ t.hoistedNames ↔
    (t.kind.isFunction || t.kind.isClass) = false ∧
      (t.VarStatement x ∨ ∃ c ∈ t.children, x ∈ c.hoistedNames) := by
  obtain ⟨kind, role, span, own, children⟩ := t
  rw [hoistedNames, hoistedNamesOfAll_eq]
  by_cases hk : (kind.isFunction || kind.isClass) = true
  · simp [hk]
  · have hvar : x ∈ (if kind == .variableDeclaration then
        declaratorNames ⟨kind, role, span, own, children⟩ else []) ↔
          VarStatement ⟨kind, role, span, own, children⟩ x := by
      by_cases hv : kind = .variableDeclaration <;> simp [hv, VarStatement, mem_declaratorNames_iff]
    rw [if_neg hk, List.mem_append, List.mem_flatMap, hvar]
    exact (and_iff_right (Bool.eq_false_iff.mpr hk)).symm

theorem VarStatement.outside {t : Tree} {x : String} (h : t.VarStatement x) :
    (t.kind.isFunction || t.kind.isClass) = false := by
  rw [h.1]
  rfl

mutual

theorem hoists_of_mem {x : String} : ∀ t : Tree, x ∈ t.hoistedNames → Hoists (·.VarStatement x) t
  | ⟨kind, role, span, own, children⟩ => by
    intro h
    obtain ⟨hk, hvar | ⟨c, hc, hx⟩⟩ := mem_hoistedNames.mp h
    · exact .here hvar
    · exact .inside hk hc (hoists_of_mem_all children c hc hx)

theorem hoists_of_mem_all {x : String} : ∀ ts : List Tree, ∀ c ∈ ts, x ∈ c.hoistedNames →
    Hoists (·.VarStatement x) c
  | [] => by simp
  | t :: ts => by
    intro c hc hx
    rcases List.mem_cons.mp hc with heq | hc
    · rw [heq] at hx ⊢
      exact hoists_of_mem t hx
    · exact hoists_of_mem_all ts c hc hx

end

theorem mem_hoistedNames_iff {t : Tree} {x : String} :
    x ∈ t.hoistedNames ↔ Hoists (·.VarStatement x) t := by
  refine ⟨hoists_of_mem t, fun h => ?_⟩
  induction h with
  | here hvar => exact mem_hoistedNames.mpr ⟨hvar.outside, .inl hvar⟩
  | inside hk hc _ ih => exact mem_hoistedNames.mpr ⟨hk, .inr ⟨_, hc, ih⟩⟩

end Tree

/-! ## Scopes -/

inductive LocalForm where
  | parameter | ownName | hoisted | hoistedLoop | statement | markedStatement | caseStatement
  | loopHead | caught
deriving DecidableEq, Repr

/-- The ways that the walk knows. The others are `var` in the head of a loop over elements, for the
function around the loop; a declaration behind a mark, or of a function without a body, in a block; and
any declaration in a case of a `switch`. -/
def LocalForm.recognised : LocalForm → Bool
  | hoistedLoop | markedStatement | caseStatement => false
  | _ => true

/-- Statements that stand in front of another one: `export`, `declare` and labels. -/
def Kind.isMark : Kind → Bool
  | exportStatement | ambientDeclaration | labeledStatement => true
  | _ => false

namespace Tree

/-- The statement declares the name by `let`, `const`, `function` or `class`. -/
inductive Introduces : Tree → String → Prop
  | declarators {t : Tree} {x : String} (hk : t.kind = .lexicalDeclaration) (h : t.HasVariable x) :
      Introduces t x
  | named {t n : Tree} (hk : t.kind.isNamedDeclaration = true) (hn : t.child? .name = some n) :
      Introduces t n.text

/-- The same behind marks, or by the signature of a function alone. -/
inductive IntroducesMarked : Tree → String → Prop
  | mark {t s : Tree} {x : String} (hk : t.kind.isMark = true) (hs : s ∈ t.children)
      (h : s.Introduces x) : IntroducesMarked t x
  | marks {t s : Tree} {x : String} (hk : t.kind.isMark = true) (hs : s ∈ t.children)
      (h : IntroducesMarked s x) : IntroducesMarked t x
  | signature {t n : Tree} (hk : t.kind = .functionSignature) (hn : t.child? .name = some n) :
      IntroducesMarked t n.text

def VarLoop (t : Tree) (x : String) : Prop :=
  t.kind = .forInStatement ∧ (∃ k, t.child? .keyword = some k ∧ k.isToken "var" = true) ∧
    ∃ p, t.child? .left = some p ∧ p.Names x

inductive Declares (t : Tree) : LocalForm → String → Prop
  | parameter {r : Role} {p : Tree} {x : String} (hk : t.kind.isFunction = true)
      (hr : r = .parameters ∨ r = .parameter) (hp : t.child? r = some p) (h : p.Names x) :
      Declares t .parameter x
  | ownName {n : Tree}
      (hk : t.kind = .functionExpression ∨ t.kind = .generatorExpression ∨ t.kind = .arrowFunction)
      (hn : t.child? .name = some n) : Declares t .ownName n.text
  | hoisted {b s : Tree} {x : String} (hk : t.kind.isFunction = true) (hb : t.child? .body = some b)
      (hbk : b.kind = .statementBlock) (hs : s ∈ b.children) (h : Hoists (·.VarStatement x) s) :
      Declares t .hoisted x
  | hoistedLoop {b s : Tree} {x : String} (hk : t.kind.isFunction = true)
      (hb : t.child? .body = some b) (hbk : b.kind = .statementBlock) (hs : s ∈ b.children)
      (h : Hoists (·.VarLoop x) s) : Declares t .hoistedLoop x
  | statement {s : Tree} {x : String} (hk : t.kind = .statementBlock) (hs : s ∈ t.children)
      (h : s.Introduces x) : Declares t .statement x
  | markedStatement {s : Tree} {x : String} (hk : t.kind = .statementBlock) (hs : s ∈ t.children)
      (h : s.IntroducesMarked x) : Declares t .markedStatement x
  | caseStatement {c s : Tree} {x : String} (hk : t.kind = .switchBody) (hc : c ∈ t.children)
      (hck : c.kind = .switchCase ∨ c.kind = .switchDefault) (hs : s ∈ c.children)
      (h : s.Introduces x ∨ s.IntroducesMarked x) : Declares t .caseStatement x
  | counter {d : Tree} {x : String} (hk : t.kind = .forStatement)
      (hd : t.child? .initializer = some d) (hdk : d.kind.isDeclaration = true) (h : d.HasVariable x) :
      Declares t .loopHead x
  | element {k p : Tree} {x : String} (hk : t.kind = .forInStatement)
      (hkeyword : t.child? .keyword = some k) (hp : t.child? .left = some p) (h : p.Names x) :
      Declares t .loopHead x
  | caught {p : Tree} {x : String} (hk : t.kind = .catchClause) (hp : t.child? .parameter = some p)
      (h : p.Names x) : Declares t .caught x

theorem mem_ownScopeName_iff {t : Tree} {x : String} : x ∈ t.ownScopeName ↔
    (t.kind = .functionExpression ∨ t.kind = .generatorExpression ∨ t.kind = .arrowFunction) ∧
      ∃ n, t.child? .name = some n ∧ n.text = x := by
  unfold ownScopeName
  split <;> simp_all

theorem mem_functionScopeNames_iff {t : Tree} {x : String} : x ∈ t.functionScopeNames ↔
    x ∈ t.ownScopeName ∨ x ∈ t.namesInRole .parameters ∨ x ∈ t.namesInRole .parameter ∨
      ∃ b, t.child? .body = some b ∧ b.kind = .statementBlock ∧
        ∃ s ∈ b.children, Hoists (·.VarStatement x) s := by
  simp only [functionScopeNames, List.mem_append, or_assoc]
  refine or_congr Iff.rfl (or_congr Iff.rfl (or_congr Iff.rfl ?_))
  cases t.child? .body with
  | none => simp
  | some b =>
    by_cases hb : b.kind = .statementBlock
    · simp [hb, hoistedNamesOfAll_eq, mem_hoistedNames_iff]
    · simp [hb]

theorem mem_blockScopeNames_iff {t : Tree} {x : String} :
    x ∈ t.blockScopeNames ↔ ∃ s ∈ t.children, s.Introduces x := by
  simp only [blockScopeNames, List.mem_flatMap]
  constructor
  · rintro ⟨s, hs, hx⟩
    refine ⟨s, hs, ?_⟩
    split at hx
    · rename_i hk
      exact .declarators (beq_iff_eq.mp hk) (mem_declaratorNames_iff.mp hx)
    · split at hx
      · rename_i hk
        obtain ⟨n, hn, rfl⟩ := Option.map_eq_some_iff.mp (Option.mem_toList.mp hx)
        exact .named hk hn
      · cases hx
  · rintro ⟨s, hs, hx⟩
    refine ⟨s, hs, ?_⟩
    cases hx with
    | declarators hk h =>
      rw [if_pos (beq_iff_eq.mpr hk)]
      exact mem_declaratorNames_iff.mpr h
    | named hk hn =>
      have hlexical : ¬ (s.kind == .lexicalDeclaration) = true := by
        intro hl
        rw [beq_iff_eq.mp hl] at hk
        cases hk
      rw [if_neg hlexical, if_pos hk, hn]
      simp

theorem declares_of_mem {t : Tree} {x : String} (h : x ∈ t.declaredNames) :
    ∃ form : LocalForm, form.recognised = true ∧ t.Declares form x := by
  unfold declaredNames at h
  split at h
  · rename_i hk
    rcases mem_functionScopeNames_iff.mp h with h | h | h | ⟨b, hb, hbk, s, hs, hx⟩
    · obtain ⟨hown, n, hn, rfl⟩ := mem_ownScopeName_iff.mp h
      exact ⟨_, rfl, .ownName hown hn⟩
    · obtain ⟨p, hp, hx⟩ := mem_namesInRole_iff.mp h
      exact ⟨_, rfl, .parameter hk (.inl rfl) hp hx⟩
    · obtain ⟨p, hp, hx⟩ := mem_namesInRole_iff.mp h
      exact ⟨_, rfl, .parameter hk (.inr rfl) hp hx⟩
    · exact ⟨_, rfl, .hoisted hk hb hbk hs hx⟩
  · split at h
    · rename_i hk
      obtain ⟨s, hs, hx⟩ := mem_blockScopeNames_iff.mp h
      exact ⟨_, rfl, .statement hk hs hx⟩
    · rename_i hk
      split at h
      · rename_i d hd
        split at h
        · rename_i hdk
          exact ⟨_, rfl, .counter hk hd hdk (mem_declaratorNames_iff.mp h)⟩
        · cases h
      · cases h
    · rename_i hk
      split at h
      · rename_i hkeyword
        obtain ⟨k, hkeyword⟩ := Option.isSome_iff_exists.mp hkeyword
        obtain ⟨p, hp, hx⟩ := mem_namesInRole_iff.mp h
        exact ⟨_, rfl, .element hk hkeyword hp hx⟩
      · cases h
    · rename_i hk
      obtain ⟨p, hp, hx⟩ := mem_namesInRole_iff.mp h
      exact ⟨_, rfl, .caught hk hp hx⟩
    · cases h

theorem Declares.mem {t : Tree} {x : String} {form : LocalForm} (h : t.Declares form x)
    (hform : form.recognised = true) : x ∈ t.declaredNames := by
  cases h with
  | parameter hk hr hp h =>
    rw [declaredNames, if_pos hk, mem_functionScopeNames_iff]
    rcases hr with rfl | rfl
    · exact .inr (.inl (mem_namesInRole_iff.mpr ⟨_, hp, h⟩))
    · exact .inr (.inr (.inl (mem_namesInRole_iff.mpr ⟨_, hp, h⟩)))
  | ownName hk hn =>
    have hfunction : t.kind.isFunction = true := by
      rcases hk with hk | hk | hk <;> rw [hk] <;> rfl
    rw [declaredNames, if_pos hfunction, mem_functionScopeNames_iff]
    exact .inl (mem_ownScopeName_iff.mpr ⟨hk, _, hn, rfl⟩)
  | hoisted hk hb hbk hs h =>
    rw [declaredNames, if_pos hk, mem_functionScopeNames_iff]
    exact .inr (.inr (.inr ⟨_, hb, hbk, _, hs, h⟩))
  | statement hk hs h =>
    simp only [declaredNames, hk]
    exact mem_blockScopeNames_iff.mpr ⟨_, hs, h⟩
  | counter hk hd hdk h =>
    simp only [declaredNames, hk, hd, hdk]
    exact mem_declaratorNames_iff.mpr h
  | element hk hkeyword hp h =>
    simp only [declaredNames, hk, hkeyword]
    exact mem_namesInRole_iff.mpr ⟨_, hp, h⟩
  | caught hk hp h =>
    simp only [declaredNames, hk]
    exact mem_namesInRole_iff.mpr ⟨_, hp, h⟩
  | hoistedLoop => cases hform
  | markedStatement => cases hform
  | caseStatement => cases hform

theorem Declares.isScope {t : Tree} {x : String} {form : LocalForm} (h : t.Declares form x)
    (hform : form.recognised = true) : (t.kind.isFunction || t.kind.isBlockScope) = true := by
  cases h with
  | parameter hk => rw [hk]; rfl
  | ownName hk => rcases hk with hk | hk | hk <;> rw [hk] <;> rfl
  | hoisted hk => rw [hk]; rfl
  | hoistedLoop => cases hform
  | markedStatement => cases hform
  | caseStatement => cases hform
  | _ hk => rw [hk]; rfl

theorem binds_iff {t : Tree} {x : String} :
    t.binds x = true ↔ ∃ form : LocalForm, form.recognised = true ∧ t.Declares form x := by
  rw [binds, Bool.and_eq_true, List.contains_iff_mem]
  constructor
  · exact fun h => declares_of_mem h.2
  · rintro ⟨form, hform, h⟩
    exact ⟨h.isScope hform, h.mem hform⟩

end Tree

end CodeAtlas.Script
