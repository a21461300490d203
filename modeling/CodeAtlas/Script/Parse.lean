import CodeAtlas.Script.Lexicon
import CodeAtlas.Script.Tree

/-!
# Parsing scripts

`parse` reads a whole file in one of the dialects. Where the grammar leaves open how to go on, every
way is followed on a stack of its own. Two stacks that have come to the same states at the same places
are two readings of one text, and the better one is kept. The text is free of errors when one stack
takes all of it.
-/

namespace CodeAtlas.Script

/-! ## Stacks -/

/-- What was read between two states: the trees, the last one first, and the text they cover. A piece
besides the grammar is a comment. -/
structure Piece where
  trees : List Tree
  start : Cursor
  stop : Cursor
  weight : Int := 0
  besides : Bool := false
  /-- Whether the trees stand for one node, or are the parts of a hidden one. -/
  single : Bool := true

inductive Stack where
  | base (state : Nat)
  | push (below : Stack) (state : Nat) (piece : Piece)

namespace Stack

def state : Stack → Nat
  | base s => s
  | push _ s _ => s

/-- Takes off the comments on top, and answers them with the lowest one first. -/
def popBesides : Stack → List Piece → List Piece × Stack
  | base s, popped => (popped, base s)
  | push below s piece, popped =>
    if piece.besides then popBesides below (piece :: popped) else (popped, push below s piece)

def pop : Stack → Nat → List Piece → List Piece × Stack
  | s, 0, popped => (popped, s)
  | base s, _ + 1, popped => (popped, base s)
  | push below _ piece, n + 1, popped =>
    pop below (if piece.besides then n + 1 else n) (piece :: popped)

def pieces : Stack → List Piece → List Piece
  | base _, popped => popped
  | push below _ piece, popped => pieces below (piece :: popped)

def agrees : Stack → Stack → Bool
  | base a, base b => a == b
  | push s a p, push t b q =>
    a == b && p.stop.left == q.stop.left && p.besides == q.besides && agrees s t
  | _, _ => false

def weight : Stack → Int
  | base _ => 0
  | push below _ piece => weight below + piece.weight

end Stack

/-! ## Which reading is better -/

mutual

def Tree.compare : Tree → Tree → Ordering
  | ⟨k, _, _, _, children⟩, ⟨k', _, _, _, children'⟩ =>
    (Ord.compare k.ctorIdx k'.ctorIdx).then
      ((Ord.compare children.length children'.length).then (compareAll children children'))

def compareAll : List Tree → List Tree → Ordering
  | [], [] => .eq
  | [], _ :: _ => .lt
  | _ :: _, [] => .gt
  | t :: ts, u :: us => (t.compare u).then (compareAll ts us)

end

namespace Stack

def compareTrees : Stack → Stack → Ordering
  | push s _ p, push t _ q =>
    (compareTrees s t).then (compareAll p.trees.reverse q.trees.reverse)
  | _, _ => .eq

/-- The greater weight is better; among equals the tree that comes first. -/
def better (a b : Stack) : Stack :=
  if a.weight < b.weight then b
  else if b.weight < a.weight then a
  else if a.compareTrees b == .gt then b
  else a

end Stack

/-! ## Building nodes -/

namespace Piece

def blankBetween (c d : Cursor) : List Tree :=
  if d.left < c.left then [{ kind := .blank, span := c.spanTo d, own := c.textTo d }] else []

/-- What a step of a production does to the trees of its piece: a hidden node that is shown becomes a
node, and the role goes to every tree that has none. -/
def dress (m : Marks) (p : Piece) : Piece :=
  let p := match m.shown with
    | none => p
    | some kind =>
      match p.single, p.trees with
      | true, [t] => { p with trees := [{ t with kind }] }
      | _, trees =>
        { p with
          trees := [{ kind, span := p.start.spanTo p.stop, children := trees.reverse }]
          single := true }
  match m.role with
  | none => p
  | some r =>
    { p with trees := p.trees.map fun t => if t.role.isNone then { t with role := some r } else t }

def dressAll : List Step → List Piece → List Piece
  | _, [] => []
  | steps, p :: ps =>
    if p.besides then p :: dressAll steps ps
    else match steps with
      | s :: rest => p.dress s.marks :: dressAll rest ps
      | [] => p :: dressAll [] ps

def joined (before : List Tree) (place : Cursor) : List Piece → List Tree
  | [] => before
  | p :: ps =>
    let blank := blankBetween place p.start
    let trees := match before, blank with
      | [], [] => p.trees
      | _, _ => p.trees ++ blank ++ before
    joined trees p.stop ps

def ofPieces (t : Tables) (production : Production) (place : Cursor) (pieces : List Piece) : Piece :=
  let dressed := dressAll production.steps.toList pieces
  let start := match pieces with
    | p :: _ => p.start
    | [] => place
  let stop := match pieces.getLast? with
    | some p => p.stop
    | none => place
  let trees := joined [] start dressed
  let weight := pieces.foldl (fun w p => w + p.weight) production.weight
  match t.phrases[production.phrase]? with
  | some (.kind k) =>
    if k.hidden then { trees, start, stop, weight, single := false }
    else
      { trees := [{ kind := k, span := start.spanTo stop, children := trees.reverse }]
        start, stop, weight }
  | _ => { trees, start, stop, weight, single := false }

def ofLexed (t : Tables) (x : Lexed) (besides : Bool) : Piece :=
  let leaf (kind : Kind) : Tree :=
    { kind, span := x.start.spanTo x.stop, own := x.start.textTo x.stop }
  let trees := match t.terminals[x.terminal]? with
    | some (.kind k) => if k.hidden then [] else [leaf k]
    | _ => [leaf .token]
  { trees, start := x.start, stop := x.stop, besides }

end Piece

/-! ## The parser -/

structure Parser where
  tables : Tables
  lexicon : Lexicon

def Parser.ofGrammar (g : Grammar) : Parser :=
  let tables := Tables.ofGrammar g
  { tables, lexicon := Lexicon.ofTables tables }

structure Atlas where
  states : Array State := #[]
  numbers : Std.HashMap (List Item) Nat := {}
  moves : Std.HashMap (Nat × Bool × Nat) Nat := {}

/-- A stack that waits at a place in the text, perhaps with the lexeme there already read. -/
structure Version where
  stack : Stack
  place : Cursor
  ahead : Option Lexed := none

namespace Parser

def stateOf (a : Atlas) (number : Nat) : State :=
  a.states.getD number default

def numberOf (p : Parser) (items : List Item) : StateM Atlas Nat := do
  let a ← get
  match a.numbers[items]? with
  | some n => return n
  | none =>
    let n := a.states.size
    set { a with
      states := a.states.push (State.ofItems p.tables items)
      numbers := a.numbers.insert items n }
    return n

def move (p : Parser) (from_ : Nat) (symbol : Symbol) : StateM Atlas Nat := do
  let key := match symbol with
    | .terminal x => (from_, true, x)
    | .phrase x => (from_, false, x)
  let a ← get
  match a.moves[key]? with
  | some n => return n
  | none =>
    let n ← p.numberOf ((stateOf a from_).itemsAfter p.tables symbol)
    modify fun a => { a with moves := a.moves.insert key n }
    return n

/-- Ends an item: its pieces become one. Comments on top stay on top. -/
def endItem (p : Parser) (i : Item) (stack : Stack) (place : Cursor) : StateM Atlas Stack := do
  let production := i.production! p.tables
  let (besides, stack) := if production.steps.isEmpty then ([], stack) else stack.popBesides []
  let (pieces, stack) := stack.pop production.steps.size []
  let piece := Piece.ofPieces p.tables production place pieces
  let next ← p.move stack.state (.phrase production.phrase)
  return besides.foldl (fun s b => .push s next b) (.push stack next piece)

def addVersion (v : Version) : List Version → List Version
  | [] => [v]
  | w :: ws =>
    if v.place.left == w.place.left && v.stack.agrees w.stack then
      { w with stack := w.stack.better v.stack } :: ws
    else w :: addVersion v ws

inductive Progress where
  | taken (stack : Stack)
  | onward (versions : List Version)

/-- The last way to end an item is followed at once, with the lexeme that was read; the others wait
for their turn, and read it again. -/
def endAll (p : Parser) (v : Version) : List Item → List Version → StateM Atlas (List Version)
  | [], waiting => return waiting
  | [i], waiting => do
    let stack ← p.endItem i v.stack v.place
    if waiting.any fun w => stack.agrees w.stack then
      return addVersion { v with stack } waiting
    else return { v with stack } :: waiting
  | i :: is, waiting => do
    let stack ← p.endItem i v.stack v.place
    p.endAll v is (addVersion { v with stack, ahead := none } waiting)

def isComment (p : Parser) (terminal : Nat) : Bool :=
  some terminal == p.lexicon.number? .comment || some terminal == p.lexicon.number? .markupComment

def advance (p : Parser) : Nat → List Version → List Version → StateM Atlas Progress
  | 0, _, done => return .onward done
  | _, [], done => return .onward done
  | fuel + 1, v :: waiting, done => do
    let a ← get
    let state := stateOf a v.stack.state
    match v.ahead <|> p.lexicon.read state.expected v.place with
    | none => p.advance fuel waiting done
    | some x =>
      if p.isComment x.terminal then
        let stack := .push v.stack v.stack.state (Piece.ofLexed p.tables x true)
        p.advance fuel waiting (addVersion { stack, place := x.stop } done)
      else
        let actions := state.actions p.tables x.terminal
        if actions.ends.any (·.production + 1 == p.tables.productions.size) then
          return .taken v.stack
        else if actions.shift then
          let waiting ← p.endAll { v with ahead := none } actions.ends waiting
          let next ← p.move v.stack.state (.terminal x.terminal)
          let stack := .push v.stack next (Piece.ofLexed p.tables x false)
          p.advance fuel waiting (addVersion { stack, place := x.stop } done)
        else if actions.ends.isEmpty then
          match p.lexicon.number? .identifier with
          | some name =>
            if x.keyword && x.terminal != name && !p.lexicon.reserves state.expected x.terminal
                && state.expects name then
              p.advance fuel ({ v with ahead := some { x with terminal := name } } :: waiting) done
            else p.advance fuel waiting done
          | none => p.advance fuel waiting done
        else
          let waiting ← p.endAll { v with ahead := some x } actions.ends waiting
          p.advance fuel waiting done

def versionLimit : Nat := 40

def earliest (versions : List Version) : List Version × List Version :=
  let left := versions.foldl (fun n v => max n v.place.left) 0
  versions.partition (·.place.left == left)

def run (p : Parser) (stepFuel : Nat) : Nat → List Version → StateM Atlas (Option Stack)
  | 0, _ => return none
  | _, [] => return none
  | fuel + 1, versions => do
    let (now, later) := earliest versions
    match ← p.advance stepFuel now later with
    | .taken stack => return some stack
    | .onward versions => p.run stepFuel fuel (versions.take versionLimit)

/-- The program with everything around it: comments and blanks at both ends belong to it. -/
def wholeTree (start : Cursor) (stack : Stack) : Tree :=
  let pieces := stack.pieces []
  let last := match pieces.getLast? with
    | some p => p.stop
    | none => start
  let stop := last.advance last.left
  let inner := pieces.map fun p =>
    if p.besides then p
    else { p with trees := (p.trees.flatMap (·.children)).reverse }
  let trees := Piece.blankBetween last stop ++ Piece.joined [] start inner
  { kind := .program, span := start.spanTo stop, children := trees.reverse }

/-- The tree of a text, if it is free of errors. Between two characters only so many semicolons can be
left out, and only so many phrases can end, as the fuel allows for. -/
def parse (p : Parser) (text : String) : Option Tree :=
  let start := Cursor.ofText text
  let first := State.start p.tables
  let atlas : Atlas := { states := #[first], numbers := ({} : Std.HashMap _ _).insert first.items 0 }
  let fuel := 64 * (start.left + 4)
  let (stack, _) := p.run fuel fuel [{ stack := .base 0, place := start }] atlas
  stack.map (wholeTree start)

end Parser

def plainParser : Parser := .ofGrammar (.ofDialect .javascript)

def typedParser : Parser := .ofGrammar (.ofDialect .typescript)

def typedMarkupParser : Parser := .ofGrammar (.ofDialect .tsx)

def Dialect.parser : Dialect → Parser
  | javascript => plainParser
  | typescript => typedParser
  | tsx => typedMarkupParser

def parse (d : Dialect) (text : String) : Option Tree :=
  d.parser.parse text

end CodeAtlas.Script
