import CodeAtlas.Proofs.LocalNames
import CodeAtlas.Script.Extraction

/-!
# Trees without places

The places of nodes in the text are copied into records and looked at by nothing else. So whatever is
asked of a tree has the same answer for the tree without its places (`Tree.unplaced`).
-/

namespace CodeAtlas.Script

namespace Tree

mutual

def unplaced : Tree → Tree
  | ⟨kind, role, _, own, children⟩ => ⟨kind, role, default, own, unplacedAll children⟩

def unplacedAll : List Tree → List Tree
  | [] => []
  | t :: ts => unplaced t :: unplacedAll ts

end

theorem unplacedAll_eq (ts : List Tree) : unplacedAll ts = ts.map unplaced := by
  induction ts with
  | nil => rfl
  | cons t ts ih => rw [unplacedAll, List.map_cons, ih]

/-! ## Parts -/

section
variable (t : Tree)

@[simp] theorem unplaced_kind : t.unplaced.kind = t.kind := by
  obtain ⟨kind, role, span, own, children⟩ := t
  rw [unplaced]

@[simp] theorem unplaced_role : t.unplaced.role = t.role := by
  obtain ⟨kind, role, span, own, children⟩ := t
  rw [unplaced]

@[simp] theorem unplaced_own : t.unplaced.own = t.own := by
  obtain ⟨kind, role, span, own, children⟩ := t
  rw [unplaced]

@[simp] theorem unplaced_span : t.unplaced.span = default := by
  obtain ⟨kind, role, span, own, children⟩ := t
  rw [unplaced]

@[simp] theorem unplaced_children : t.unplaced.children = t.children.map unplaced := by
  obtain ⟨kind, role, span, own, children⟩ := t
  rw [unplaced, unplacedAll_eq]

end

mutual

@[simp] theorem unplaced_unplaced : ∀ t : Tree, t.unplaced.unplaced = t.unplaced
  | ⟨kind, role, span, own, children⟩ => by
    rw [unplaced, unplaced, unplacedAll_unplacedAll children]

theorem unplacedAll_unplacedAll : ∀ ts : List Tree, unplacedAll (unplacedAll ts) = unplacedAll ts
  | [] => rfl
  | t :: ts => by
    rw [unplacedAll, unplacedAll, unplaced_unplaced t, unplacedAll_unplacedAll ts]

end

theorem find?_unplaced (p : Tree → Bool) (hp : ∀ t, p t.unplaced = p t) (ts : List Tree) :
    (ts.map unplaced).find? p = (ts.find? p).map unplaced := by
  rw [List.find?_map]
  congr 2
  exact funext hp

theorem filter_unplaced (p : Tree → Bool) (hp : ∀ t, p t.unplaced = p t) (ts : List Tree) :
    (ts.map unplaced).filter p = (ts.filter p).map unplaced := by
  rw [List.filter_map]
  congr 2
  exact funext hp

section
variable (t : Tree)

@[simp] theorem unplaced_child? (r : Role) : t.unplaced.child? r = (t.child? r).map unplaced := by
  rw [child?, unplaced_children, find?_unplaced]
  · rfl
  · simp

@[simp] theorem unplaced_firstOfKind? (k : Kind) :
    t.unplaced.firstOfKind? k = (t.firstOfKind? k).map unplaced := by
  rw [firstOfKind?, unplaced_children, find?_unplaced]
  · rfl
  · simp

@[simp] theorem unplaced_namedChildren : t.unplaced.namedChildren = t.namedChildren.map unplaced := by
  rw [namedChildren, unplaced_children, filter_unplaced]
  · rfl
  · simp [named]

@[simp] theorem unplaced_hasToken (spelling : String) :
    t.unplaced.hasToken spelling = t.hasToken spelling := by
  simp [hasToken, isToken, Function.comp_def]

end

/-! ## Texts -/

mutual

@[simp] theorem unplaced_text : ∀ t : Tree, t.unplaced.text = t.text
  | ⟨kind, role, span, own, children⟩ => by
    rw [unplaced, text, text, unplacedAll_textOfAll]

theorem unplacedAll_textOfAll : ∀ ts : List Tree, textOfAll (unplacedAll ts) = textOfAll ts
  | [] => rfl
  | t :: ts => by
    rw [unplacedAll, textOfAll, textOfAll, unplaced_text, unplacedAll_textOfAll]

end

section
variable (t : Tree)

@[simp] theorem unplaced_stringValue? : t.unplaced.stringValue? = t.stringValue? := by
  simp [stringValue?, Function.comp_def]

@[simp] theorem unplaced_spelledName : t.unplaced.spelledName = t.spelledName := by
  simp [spelledName]

@[simp] theorem map_unplaced_bind_stringValue? (found : Option Tree) :
    (found.map unplaced).bind (·.stringValue?) = found.bind (·.stringValue?) := by
  cases found with
  | none => rfl
  | some s => exact s.unplaced_stringValue?

@[simp] theorem unplaced_firstStringArgument? :
    t.unplaced.firstStringArgument? = t.firstStringArgument? := by
  unfold firstStringArgument?
  rw [unplaced_child?]
  cases t.child? .arguments with
  | none => rfl
  | some arguments => simp

end

/-! ## Names -/

mutual

@[simp] theorem unplaced_patternNames : ∀ t : Tree, t.unplaced.patternNames = t.patternNames
  | ⟨kind, role, span, own, children⟩ => by
    have htext := unplaced_text ⟨kind, role, span, own, children⟩
    have hin := fun r => unplacedAll_patternNamesIn r children
    have hall := unplacedAll_patternNamesOfAll children
    rw [unplaced] at htext ⊢
    rw [patternNames_eq, patternNames_eq ⟨kind, role, span, own, children⟩, htext]
    simp only [← patternNamesOfAll_eq, namesInRole, hin, hall]

theorem unplacedAll_patternNamesIn (r : Role) : ∀ ts : List Tree,
    patternNamesIn r (unplacedAll ts) = patternNamesIn r ts
  | [] => rfl
  | t :: ts => by
    rw [unplacedAll, patternNamesIn, patternNamesIn, unplaced_role, unplaced_patternNames,
      unplacedAll_patternNamesIn]

theorem unplacedAll_patternNamesOfAll : ∀ ts : List Tree,
    patternNamesOfAll (unplacedAll ts) = patternNamesOfAll ts
  | [] => rfl
  | t :: ts => by
    rw [unplacedAll, patternNamesOfAll, patternNamesOfAll, unplaced_patternNames,
      unplacedAll_patternNamesOfAll]

end

section
variable (t : Tree)

@[simp] theorem unplaced_namesInRole (r : Role) : t.unplaced.namesInRole r = t.namesInRole r := by
  rw [namesInRole, unplaced_children, ← unplacedAll_eq, unplacedAll_patternNamesIn, namesInRole]

@[simp] theorem unplaced_declaratorNames : t.unplaced.declaratorNames = t.declaratorNames := by
  simp [declaratorNames, List.flatMap_map]

end

mutual

@[simp] theorem unplaced_hoistedNames : ∀ t : Tree, t.unplaced.hoistedNames = t.hoistedNames
  | ⟨kind, role, span, own, children⟩ => by
    have hnames := unplaced_declaratorNames ⟨kind, role, span, own, children⟩
    have hall := unplacedAll_hoistedNamesOfAll children
    rw [unplaced] at hnames ⊢
    rw [hoistedNames, hoistedNames, hnames, hall]

theorem unplacedAll_hoistedNamesOfAll : ∀ ts : List Tree,
    hoistedNamesOfAll (unplacedAll ts) = hoistedNamesOfAll ts
  | [] => rfl
  | t :: ts => by
    rw [unplacedAll, hoistedNamesOfAll, hoistedNamesOfAll, unplaced_hoistedNames,
      unplacedAll_hoistedNamesOfAll]

end

section
variable (t : Tree)

@[simp] theorem unplaced_functionScopeNames : t.unplaced.functionScopeNames = t.functionScopeNames := by
  have hown : t.unplaced.ownScopeName = t.ownScopeName := by
    simp [ownScopeName, Function.comp_def]
  unfold functionScopeNames
  rw [hown, unplaced_namesInRole, unplaced_namesInRole, unplaced_child?]
  cases t.child? .body with
  | none => rfl
  | some body => simp [← unplacedAll_eq, unplacedAll_hoistedNamesOfAll]

@[simp] theorem unplaced_blockScopeNames : t.unplaced.blockScopeNames = t.blockScopeNames := by
  simp [blockScopeNames, List.flatMap_map, Function.comp_def]

@[simp] theorem unplaced_declaredNames : t.unplaced.declaredNames = t.declaredNames := by
  simp only [declaredNames, unplaced_kind, unplaced_functionScopeNames, unplaced_blockScopeNames,
    unplaced_child?, unplaced_namesInRole, Option.isSome_map]
  cases t.child? .initializer with
  | none => rfl
  | some d => simp

@[simp] theorem unplaced_binds (name : String) : t.unplaced.binds name = t.binds name := by
  simp [binds]

end

end Tree

/-! ## Imports and exports -/

namespace Walk

variable (t : Tree)

@[simp] theorem unplaced_clauseSpecifiers : clauseSpecifiers t.unplaced = clauseSpecifiers t := by
  simp [clauseSpecifiers, Tree.filter_unplaced, List.filterMap_map, Option.bind_map, Function.comp_def]

@[simp] theorem unplaced_importSpecifiers : importSpecifiers t.unplaced = importSpecifiers t := by
  simp [importSpecifiers, Tree.filter_unplaced, List.flatMap_map]

@[simp] theorem unplaced_exportPairs : exportPairs t.unplaced = exportPairs t := by
  simp only [exportPairs, Tree.unplaced_children, Tree.filter_unplaced, Tree.unplaced_kind, implies_true,
    List.filterMap_map, Function.comp_def, Tree.unplaced_child?, Option.map_map, Option.bind_eq_bind,
    Option.bind_map, Tree.unplaced_spelledName]

@[simp] theorem unplaced_reexportSpecifiers : reexportSpecifiers t.unplaced = reexportSpecifiers t := by
  simp [reexportSpecifiers, List.flatMap_map, Function.comp_def]

@[simp] theorem unplaced_requestedExports : requestedExports t.unplaced = requestedExports t := by
  simp only [requestedExports, Tree.unplaced_children, Tree.unplaced_child?, Tree.unplaced_hasToken]
  rw [Tree.filter_unplaced _ (by simp), List.flatMap_map]
  simp only [unplaced_exportPairs]
  cases t.child? .value with
  | none => rfl
  | some v => simp

end Walk

end CodeAtlas.Script
