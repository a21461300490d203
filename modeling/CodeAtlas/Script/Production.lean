import CodeAtlas.Script.Grammar

/-!
# Productions

A rule with choices and options stands for several plain sequences of steps, its productions. Runs of
one or more become phrases of their own, and inlined kinds are replaced by their productions. Only
the program may be empty.
-/

namespace CodeAtlas.Script

/-! ## Symbols -/

inductive Terminal where
  | mark (spelling : String)
  | kind (k : Kind)
deriving DecidableEq, Repr

/-- A phrase with a rule of its own, or a run inside of phrases. -/
inductive Phrase where
  | kind (k : Kind)
  | run (part : Rule)
deriving BEq, Repr

inductive Symbol where
  | terminal (t : Nat)
  | phrase (p : Nat)
deriving DecidableEq, Repr

namespace Rule

mutual

def terminals (hasRule : Kind → Bool) : Rule → List Terminal
  | blank => []
  | mark spelling => [.mark spelling]
  | kind k => if hasRule k then [] else [.kind k]
  | seq parts | choice parts => terminalsOfAll hasRule parts
  | run part | role _ part | shown _ part | ranked _ _ part | weighted _ part | anyWord part =>
    terminals hasRule part

def terminalsOfAll (hasRule : Kind → Bool) : List Rule → List Terminal
  | [] => []
  | r :: rs => terminals hasRule r ++ terminalsOfAll hasRule rs

end

mutual

def runs : Rule → List Rule
  | blank | mark _ | kind _ => []
  | seq parts | choice parts => runsOfAll parts
  | run part => part :: runs part
  | role _ part | shown _ part | ranked _ _ part | weighted _ part | anyWord part => runs part

def runsOfAll : List Rule → List Rule
  | [] => []
  | r :: rs => runs r ++ runsOfAll rs

end

end Rule

/-- The symbols of a grammar; their numbers are their places in the lists. -/
structure Vocabulary where
  terminals : List Terminal
  phrases : List Phrase

namespace Grammar

def reachable (g : Grammar) : Nat → List Kind → List Kind → List Kind
  | 0, _, seen => seen
  | _, [], seen => seen
  | fuel + 1, k :: todo, seen =>
    if seen.contains k then reachable g fuel todo seen
    else match g.rule? k with
      | some r => reachable g fuel (r.kinds ++ todo) (k :: seen)
      | none => reachable g fuel todo seen

/-- More than the mentions of kinds in all rules together. -/
def reachFuel : Nat := 10000

def kinds (g : Grammar) : List Kind :=
  (g.reachable reachFuel [.program] []).mergeSort fun a b => a.ctorIdx ≤ b.ctorIdx

def silentTerminals : List Terminal :=
  [.kind .endOfText, .kind .comment, .kind .markupComment]

def vocabulary (g : Grammar) : Vocabulary :=
  let kinds := g.kinds
  let rules := kinds.filterMap g.rule?
  { terminals :=
      (silentTerminals ++ rules.flatMap (·.terminals fun k => (g.rule? k).isSome)).eraseDups
    phrases := kinds.map .kind ++ (rules.flatMap (·.runs)).eraseDups.map .run }

end Grammar

namespace Vocabulary

def ofMark (v : Vocabulary) (spelling : String) : Symbol :=
  .terminal (v.terminals.idxOf (.mark spelling))

def ofKind (v : Vocabulary) (k : Kind) : Symbol :=
  match v.phrases.findIdx? (· == .kind k) with
  | some p => .phrase p
  | none => .terminal (v.terminals.idxOf (.kind k))

def ofRun (v : Vocabulary) (part : Rule) : Symbol :=
  .phrase (v.phrases.idxOf (.run part))

end Vocabulary

/-! ## Alternatives of a rule -/

structure Marks where
  rank : Option Rank := none
  side : Option Side := none
  role : Option Role := none
  shown : Option Kind := none
  anyWord : Bool := false
deriving DecidableEq, Repr

structure Step where
  symbol : Symbol
  marks : Marks := {}
deriving DecidableEq, Repr

structure Alternative where
  steps : List Step := []
  weight : Int := 0
deriving DecidableEq, Repr

namespace Alternative

def heavier (a b : Int) : Int :=
  if a.natAbs < b.natAbs then b else a

def append (a b : Alternative) : Alternative :=
  { steps := a.steps ++ b.steps, weight := heavier a.weight b.weight }

/-- Gives the last step the rank and side of what stands around the alternative. -/
def closeWith (around : Marks) (sided : Bool) (a : Alternative) : Alternative :=
  match a.steps.reverse with
  | [] => a
  | last :: before =>
    let marks := { last.marks with
      rank := around.rank, side := if sided then around.side else last.marks.side }
    { a with steps := ({ last with marks } :: before).reverse }

end Alternative

namespace Rule

mutual

/-- The alternatives of a rule with the given marks around it; `last` says that nothing follows it in
the rule it belongs to. -/
def alternatives (v : Vocabulary) (m : Marks) (last : Bool) : Rule → List Alternative
  | blank => [{}]
  | mark spelling => [{ steps := [⟨v.ofMark spelling, m⟩] }]
  | kind k => [{ steps := [⟨v.ofKind k, m⟩] }]
  | run part => [{ steps := [⟨v.ofRun part, m⟩] }]
  | seq parts => sequences v m last parts
  | choice parts => (choices v m last parts).eraseDups
  | role r part => alternatives v { m with role := some r } last part
  | shown k part => alternatives v { m with shown := some k } last part
  | anyWord part => alternatives v { m with anyWord := true } last part
  | weighted w part =>
    (alternatives v m last part).map fun a => { a with weight := Alternative.heavier w a.weight }
  | ranked rank side part =>
    let inner := alternatives v { m with rank := some rank, side := side <|> m.side } last part
    if last then inner else inner.map (Alternative.closeWith m side.isSome)

def sequences (v : Vocabulary) (m : Marks) (last : Bool) : List Rule → List Alternative
  | [] => [{}]
  | r :: rs =>
    let tails := sequences v m last rs
    (alternatives v m (last && rs.isEmpty) r).flatMap fun a => tails.map a.append

def choices (v : Vocabulary) (m : Marks) (last : Bool) : List Rule → List Alternative
  | [] => []
  | r :: rs => alternatives v m last r ++ choices v m last rs

end

end Rule

/-! ## Productions of a grammar -/

structure Production where
  phrase : Nat
  steps : Array Step
  weight : Int
deriving DecidableEq, Repr

instance : Inhabited Production := ⟨⟨0, #[], 0⟩⟩

namespace Grammar

/-- The alternatives of a phrase, inlined kinds still among their steps. A run is one part, or two
runs. -/
def alternatives (g : Grammar) (v : Vocabulary) : Phrase → List Alternative
  | .kind k => ((g.rule? k).map (·.alternatives v {} true)).getD []
  | .run part =>
    let self := v.ofRun part
    { steps := [⟨self, {}⟩, ⟨self, {}⟩] } :: part.alternatives v {} true

/-- The steps that stand in for an inlined step. What the step says about its role and name holds for
all of them; its rank and side for the last, unless that has its own. -/
def stepsFor (outer : Marks) : List Step → List Step
  | [] => []
  | s :: rest =>
    let m := { s.marks with
      role := s.marks.role <|> outer.role
      shown := outer.shown <|> s.marks.shown
      anyWord := s.marks.anyWord || outer.anyWord }
    let m := if rest.isEmpty then
        { m with rank := m.rank <|> outer.rank, side := m.side <|> outer.side }
      else m
    ⟨s.symbol, m⟩ :: stepsFor outer rest

def inlineOnce (inlined : List (Symbol × List Alternative)) : List Step → List Alternative
  | [] => [{}]
  | s :: rest =>
    let heads : List Alternative := match inlined.lookup s.symbol with
      | some as => as.map fun a => { a with steps := stepsFor s.marks a.steps }
      | none => [{ steps := [s] }]
    let tails := inlineOnce inlined rest
    heads.flatMap fun a => tails.map a.append

def inlineAll (inlined : List (Symbol × List Alternative)) : Nat → Alternative → List Alternative
  | 0, a => [a]
  | depth + 1, a =>
    if a.steps.any fun s => (inlined.lookup s.symbol).isSome then
      (inlineOnce inlined a.steps).flatMap fun b =>
        inlineAll inlined depth { b with weight := Alternative.heavier a.weight b.weight }
    else [a]

/-- Inlined kinds mention each other less deep than this. -/
def inlineDepth : Nat := 5

def productions (g : Grammar) (v : Vocabulary) : Array Production :=
  let inlined := g.inlined.map fun k => (v.ofKind k, g.alternatives v (.kind k))
  let isInlined (s : Step) := (inlined.lookup s.symbol).isSome
  (v.phrases.zipIdx.flatMap fun (p, index) =>
    if (inlined.lookup (.phrase index)).isSome then []
    else
      let plain := g.alternatives v p
      let all := if plain.any (·.steps.any isInlined)
        then (plain.flatMap (inlineAll inlined inlineDepth)).eraseDups
        else plain
      all.map fun a => (⟨index, a.steps.toArray, a.weight⟩ : Production)).toArray

end Grammar

end CodeAtlas.Script
