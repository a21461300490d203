import CodeAtlas.Script.Kind

/-!
# Rules of a grammar

A rule describes the phrases of a kind as sequences of keywords, marks and phrases of other kinds.
Ranks and sides settle how phrases nest that could nest in two ways: the higher rank binds first,
and among equals a phrase grouped to the left takes its left neighbour.
-/

namespace CodeAtlas.Script

/-- Named ranks; which of two binds first is for the grammar to say. -/
inductive Level where
  | member | templateCall | call | construct | unaryWord | power | times | plus | shift | relation
  | equality | bitAnd | bitXor | bitOr | logicalAnd | logicalOr | ternary | assign | declaration
  | literal | object | instantiation | unary | cast | heritage
deriving DecidableEq, Repr

inductive Rank where
  | level (l : Level)
  | number (n : Int)
deriving DecidableEq, Repr

inductive Side where
  | left | right
deriving DecidableEq, Repr

inductive Rule where
  | blank
  | mark (spelling : String)
  | kind (k : Kind)
  | seq (parts : List Rule)
  | choice (parts : List Rule)
  /-- One or more in a row. -/
  | run (part : Rule)
  | role (r : Role) (part : Rule)
  /-- The part stands in the tree under another kind. -/
  | shown (k : Kind) (part : Rule)
  | ranked (rank : Rank) (side : Option Side) (part : Rule)
  /-- Among two readings of one text the one with the greater sum of weights is taken. -/
  | weighted (weight : Int) (part : Rule)
  /-- Reserved words are names here. -/
  | anyWord (part : Rule)
deriving BEq, Repr

instance : Coe String Rule := ⟨Rule.mark⟩

instance : Coe Kind Rule := ⟨Rule.kind⟩

namespace Rule

def opt (r : Rule) : Rule :=
  choice [r, blank]

def many (r : Rule) : Rule :=
  choice [run r, blank]

def commas1 (r : Rule) : Rule :=
  seq [r, many (seq [mark ",", r])]

def commas (r : Rule) : Rule :=
  opt (commas1 r)

def level (l : Level) (r : Rule) : Rule :=
  ranked (.level l) none r

def leftLevel (l : Level) (r : Rule) : Rule :=
  ranked (.level l) (some .left) r

def rightLevel (l : Level) (r : Rule) : Rule :=
  ranked (.level l) (some .right) r

def numbered (n : Int) (r : Rule) : Rule :=
  ranked (.number n) none r

def leftNumbered (n : Int) (r : Rule) : Rule :=
  ranked (.number n) (some .left) r

def leftGrouped (r : Rule) : Rule :=
  ranked (.number 0) (some .left) r

def rightGrouped (r : Rule) : Rule :=
  ranked (.number 0) (some .right) r

mutual

def kinds : Rule → List Kind
  | blank | mark _ => []
  | kind k => [k]
  | seq parts | choice parts => kindsOfAll parts
  | run part | role _ part | shown _ part | ranked _ _ part | weighted _ part | anyWord part =>
    kinds part

def kindsOfAll : List Rule → List Kind
  | [] => []
  | r :: rs => kinds r ++ kindsOfAll rs

end

end Rule

end CodeAtlas.Script
