import CodeAtlas.Script.Scope

/-!
# Nodes in their surroundings

A site is a node together with the nodes around it, nearest first. The sites of a tree are listed in
pre-order and numbered from zero, so that a number identifies a node.
-/

namespace CodeAtlas.Script

structure Site where
  index : Nat
  tree : Tree
  /-- The enclosing nodes and their numbers, the parent first. -/
  above : List (Nat × Tree) := []

mutual

def sitesFrom (above : List (Nat × Tree)) (index : Nat) : Tree → List Site
  | ⟨kind, role, span, own, children⟩ =>
    let t : Tree := ⟨kind, role, span, own, children⟩
    ⟨index, t, above⟩ :: sitesOfAll ((index, t) :: above) (index + 1) children

def sitesOfAll (above : List (Nat × Tree)) (index : Nat) : List Tree → List Site
  | [] => []
  | t :: ts =>
    let here := sitesFrom above index t
    here ++ sitesOfAll above (index + here.length) ts

end

def Tree.sites (t : Tree) : List Site :=
  sitesFrom [] 0 t

namespace Site

def kind (s : Site) : Kind :=
  s.tree.kind

def parent? (s : Site) : Option Tree :=
  s.above.head?.map (·.2)

def parentIs (s : Site) (k : Kind) : Bool :=
  (s.parent?.map (·.kind)) == some k

/-- The nodes around the site that lie below the program. -/
def scopes (s : Site) : List Tree :=
  (s.above.map (·.2)).takeWhile (·.kind != .program)

def locallyBound (s : Site) (name : String) : Bool :=
  s.scopes.any (·.binds name)

def enclosingFunction? (s : Site) : Option Nat :=
  (s.above.find? (·.2.kind.isFunction)).map (·.1)

end Site

/-! ## Literal texts -/

def unquoted (s : String) : String :=
  String.ofList (s.toList.drop 1).dropLast

namespace Tree

def stringValue? (t : Tree) : Option String :=
  match t.kind with
  | .string => some (unquoted t.text)
  | .templateString =>
    if t.children.any (·.kind == .templateSubstitution) then none else some (unquoted t.text)
  | _ => none

/-- The name a node spells: inside its quotes when it is a string that is not empty, else as
written. -/
def spelledName (t : Tree) : String :=
  match t.stringValue? with
  | some s => if s.isEmpty then t.text else s
  | none => t.text

def firstOfKind? (t : Tree) (k : Kind) : Option Tree :=
  t.children.find? (·.kind == k)

def firstStringArgument? (call : Tree) : Option String := do
  let arguments ← call.child? .arguments
  let first ← arguments.namedChildren.head?
  first.stringValue?

end Tree

/-! ## Questions about a declaration's surroundings -/

namespace Site

def parentBeyondParentheses? (s : Site) : Option Tree :=
  ((s.above.map (·.2)).dropWhile (·.kind == .parenthesized)).head?

/-- The name of a function or class: its own, else that of the variable declared or assigned with
it. -/
def inferredName? (s : Site) : Option String :=
  match s.tree.child? .name with
  | some own => some own.spelledName
  | none => do
    let parent ← s.parentBeyondParentheses?
    let role ← match parent.kind with
      | .variableDeclarator => some Role.name
      | .assignment => some Role.left
      | _ => none
    let target ← parent.child? role
    if target.kind == .identifier then some target.text else none

def exportName? (s : Site) (name : Option String) : Option String := do
  let parent ← s.parent?
  match parent.kind with
  | .exportStatement => if parent.hasToken "default" then some "default" else name
  | .variableDeclarator =>
    match s.above.map (·.2) with
    | _ :: declaration :: outer :: _ =>
      if s.tree.role == some .value && declaration.kind.isDeclaration
          && outer.kind == .exportStatement then name
      else none
    | _ => none
  | _ => none

def owningClass? (s : Site) : Option (Option String × Nat) :=
  if s.kind == .methodDefinition && s.parentIs .classBody then
    match s.above with
    | _ :: (index, owner) :: _ => some ((owner.child? .name).map (·.text), index)
    | _ => none
  else none

/-- The node around a statement, beyond an `export` in front of it. -/
def beyondExport : List Tree → Option Tree
  | [] => none
  | t :: ts => if t.kind == .exportStatement then ts.head? else some t

def isProgram (t : Option Tree) : Bool :=
  (t.map (·.kind)) == some .program

def isTopLevel (s : Site) : Bool :=
  match s.above.map (·.2) with
  | [] => false
  | parent :: rest =>
    if parent.kind == .exportStatement then isProgram rest.head?
    else if parent.kind == .variableDeclarator then isProgram (beyondExport (rest.drop 1))
    else isProgram (some parent)

def inModuleDeclarator (s : Site) : Bool :=
  match s.above.map (·.2) with
  | declarator :: declaration :: rest =>
    declarator.kind == .variableDeclarator && declaration.kind.isDeclaration
      && isProgram (beyondExport rest)
  | _ => false

end Site

end CodeAtlas.Script
