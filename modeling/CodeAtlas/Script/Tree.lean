import CodeAtlas.Analysis
import CodeAtlas.Script.Kind

/-!
# Concrete syntax trees of scripts

A tree keeps every character of its source: the text of a tree is the concatenation of the texts of
its leaves, blanks and comments included. A child may play a role for its parent (`source`, `name`,
`body`, ...).
-/

namespace CodeAtlas.Script

/-- `own` is the text of a leaf; an inner node has none of its own. -/
structure Tree where
  kind : Kind
  role : Option Role := none
  span : Span
  own : String := ""
  children : List Tree := []
deriving Repr

instance : Inhabited Tree := ⟨{ kind := .token, span := default }⟩

namespace Tree

mutual

def text : Tree → String
  | ⟨_, _, _, own, children⟩ => own ++ textOfAll children

def textOfAll : List Tree → String
  | [] => ""
  | t :: ts => text t ++ textOfAll ts

end

def named (t : Tree) : Bool :=
  t.kind.named

def namedChildren (t : Tree) : List Tree :=
  t.children.filter named

def child? (t : Tree) (r : Role) : Option Tree :=
  t.children.find? (·.role == some r)

def isToken (t : Tree) (spelling : String) : Bool :=
  t.kind == .token && t.own == spelling

def hasToken (t : Tree) (spelling : String) : Bool :=
  t.children.any (·.isToken spelling)

end Tree

end CodeAtlas.Script
