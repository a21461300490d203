import CodeAtlas.Script.Tree

/-!
# Names bound by patterns and scopes

Which names a pattern binds, and which names a function, block, loop or catch clause declares for
the code inside it.
-/

namespace CodeAtlas.Script

namespace Kind

def isFunction : Kind → Bool
  | functionDeclaration | generatorDeclaration | functionExpression | generatorExpression
  | arrowFunction | methodDefinition => true
  | _ => false

def isClass : Kind → Bool
  | classDeclaration | abstractClassDeclaration | classExpression => true
  | _ => false

def isBlockScope : Kind → Bool
  | statementBlock | forStatement | forInStatement | catchClause => true
  | _ => false

def isDeclaration : Kind → Bool
  | lexicalDeclaration | variableDeclaration => true
  | _ => false

def isNamedDeclaration : Kind → Bool
  | functionDeclaration | generatorDeclaration | classDeclaration | abstractClassDeclaration => true
  | _ => false

end Kind

namespace Tree

/-! ## Patterns -/

mutual

def patternNames : Tree → List String
  | ⟨kind, role, span, own, children⟩ =>
    match kind with
    | .identifier | .shorthandPattern => [text ⟨kind, role, span, own, children⟩]
    | .assignmentPattern | .objectAssignmentPattern => patternNamesIn .left children
    | .pairPattern => patternNamesIn .value children
    | .requiredParameter | .optionalParameter => patternNamesIn .pattern children
    | .formalParameters | .objectPattern | .arrayPattern | .restPattern => patternNamesOfAll children
    | _ => []

def patternNamesIn (r : Role) : List Tree → List String
  | [] => []
  | t :: ts => if t.role == some r then patternNames t else patternNamesIn r ts

def patternNamesOfAll : List Tree → List String
  | [] => []
  | t :: ts => patternNames t ++ patternNamesOfAll ts

end

def namesInRole (t : Tree) (r : Role) : List String :=
  patternNamesIn r t.children

def declaratorNames (declaration : Tree) : List String :=
  declaration.children.flatMap fun t =>
    if t.kind == .variableDeclarator then t.namesInRole .name else []

/-! ## Hoisted variables -/

mutual

/-- Names of `var` declarations at or below the tree, outside of nested functions and classes. -/
def hoistedNames : Tree → List String
  | ⟨kind, role, span, own, children⟩ =>
    if kind.isFunction || kind.isClass then []
    else
      (if kind == .variableDeclaration then declaratorNames ⟨kind, role, span, own, children⟩ else [])
        ++ hoistedNamesOfAll children

def hoistedNamesOfAll : List Tree → List String
  | [] => []
  | t :: ts => hoistedNames t ++ hoistedNamesOfAll ts

end

/-! ## Scopes -/

/-- A function expression can call itself by its own name; a declaration's name belongs outside. -/
def ownScopeName (t : Tree) : List String :=
  match t.kind with
  | .functionExpression | .generatorExpression | .arrowFunction =>
    ((t.child? .name).map text).toList
  | _ => []

def functionScopeNames (t : Tree) : List String :=
  let hoisted := match t.child? .body with
    | some body => if body.kind == .statementBlock then hoistedNamesOfAll body.children else []
    | none => []
  t.ownScopeName ++ t.namesInRole .parameters ++ t.namesInRole .parameter ++ hoisted

def blockScopeNames (t : Tree) : List String :=
  t.children.flatMap fun s =>
    if s.kind == .lexicalDeclaration then s.declaratorNames
    else if s.kind.isNamedDeclaration then ((s.child? .name).map text).toList
    else []

def declaredNames (t : Tree) : List String :=
  if t.kind.isFunction then t.functionScopeNames
  else match t.kind with
    | .statementBlock => t.blockScopeNames
    | .forStatement =>
      match t.child? .initializer with
      | some d => if d.kind.isDeclaration then d.declaratorNames else []
      | none => []
    | .forInStatement => if (t.child? .keyword).isSome then t.namesInRole .left else []
    | .catchClause => t.namesInRole .parameter
    | _ => []

def binds (t : Tree) (name : String) : Bool :=
  (t.kind.isFunction || t.kind.isBlockScope) && t.declaredNames.contains name

end Tree

end CodeAtlas.Script
