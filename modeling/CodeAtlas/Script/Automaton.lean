import Std.Data.HashMap
import CodeAtlas.Script.Production

/-!
# The parsing automaton

A state is a set of productions that are under way, each with the terminals that may follow it. The
states are not laid out in advance: the successor of a state is made when a text first asks for it.
Sets of terminals are bit sets.
-/

namespace CodeAtlas.Script

/-! ## Tables -/

structure Tables where
  grammar : Grammar
  terminals : Array Terminal
  phrases : Array Phrase
  /-- The last production is the whole text: a program, as a phrase beyond all others. -/
  productions : Array Production
  /-- The terminals that a phrase can start with. -/
  firsts : Array Nat
  /-- For each phrase the phrases that it can start with, what can follow them inside of it, and
  whether what follows the phrase itself can follow them too. -/
  openings : Array (List (Nat × Nat × Bool))
  /-- Productions by the terminal or phrase of their first step. -/
  byTerminal : Array (List Nat)
  byPhrase : Array (List Nat)

namespace Tables

/-- One bit beyond the terminals says that reserved words are names here. -/
def anyWordBit (terminals : Array Terminal) : Nat :=
  1 <<< terminals.size

def startsOf (terminals : Array Terminal) (firsts : Array Nat) (s : Step) : Nat :=
  match s.symbol with
  | .phrase p => firsts.getD p 0
  | .terminal t =>
    let bit := 1 <<< t
    if s.marks.anyWord && terminals[t]? == some (.kind .identifier)
    then bit ||| anyWordBit terminals else bit

def growFirsts (terminals : Array Terminal) (productions : Array Production)
    (firsts : Array Nat) : Array Nat :=
  productions.foldl (fun firsts p =>
    match p.steps[0]? with
    | some s => firsts.modify p.phrase (· ||| startsOf terminals firsts s)
    | none => firsts) firsts

def firstsFrom (terminals : Array Terminal) (productions : Array Production) :
    Nat → Array Nat → Array Nat
  | 0, firsts => firsts
  | rounds + 1, firsts =>
    let next := growFirsts terminals productions firsts
    if next == firsts then firsts else firstsFrom terminals productions rounds next

/-- How the phrases of a production's start come to be followed: by the next step, or by whatever
follows the production. -/
def leadOf (terminals : Array Terminal) (firsts : Array Nat) (p : Production) :
    Option (Nat × Nat × Bool) :=
  match p.steps.toList with
  | [⟨.phrase q, _⟩] => some (q, 0, true)
  | ⟨.phrase q, _⟩ :: next :: _ => some (q, startsOf terminals firsts next, false)
  | _ => none

def addLead (leads : List (Nat × Nat × Bool)) (lead : Nat × Nat × Bool) : List (Nat × Nat × Bool) :=
  let (q, after, passes) := lead
  match leads with
  | [] => [lead]
  | (q', after', passes') :: rest =>
    if q == q' then (q, after ||| after', passes || passes') :: rest
    else (q', after', passes') :: addLead rest lead

def leadsOf (terminals : Array Terminal) (firsts : Array Nat) (productions : Array Production)
    (phrases : Nat) : Array (List (Nat × Nat × Bool)) :=
  productions.foldl (fun leads p =>
    match leadOf terminals firsts p with
    | some lead => leads.modify p.phrase (addLead · lead)
    | none => leads) (Array.replicate phrases [])

/-- Follows the leads from phrase to phrase until nothing new is learned. A place of the array says of
a phrase whether it was met, what follows it and whether the follow of the start passes to it. -/
def openingsFrom (leads : Array (List (Nat × Nat × Bool))) :
    Nat → List (Nat × Nat × Bool) → Array (Option (Nat × Bool)) → Array (Option (Nat × Bool))
  | 0, _, known => known
  | _, [], known => known
  | fuel + 1, (q, after, passes) :: todo, known =>
    let old := known.getD q none
    let merged := match old with
      | some (a, b) => (a ||| after, b || passes)
      | none => (after, passes)
    if old == some merged then openingsFrom leads fuel todo known
    else
      let next := (leads.getD q []).map fun (r, after', passes') =>
        if passes' then (r, after' ||| merged.1, merged.2) else (r, after', false)
      openingsFrom leads fuel (next ++ todo) (known.setIfInBounds q (some merged))

/-- More than the steps that following the leads can take. -/
def openingFuel (phrases terminals : Nat) : Nat :=
  phrases * phrases * (terminals + 2)

def openingsOf (leads : Array (List (Nat × Nat × Bool))) (terminals : Nat) (start : Nat) :
    List (Nat × Nat × Bool) :=
  let known := openingsFrom leads (openingFuel leads.size terminals) [(start, 0, true)]
    (Array.replicate leads.size none)
  known.toList.zipIdx.filterMap fun (entry, q) =>
    entry.map fun (after, passes) => (q, after, passes)

def sortedBy (key : Symbol → Option Nat) (productions : Array Production) (size : Nat) :
    Array (List Nat) :=
  (productions.zipIdx.foldr (fun (p, index) sorted =>
    match (p.steps[0]?).bind (key ·.symbol) with
    | some k => sorted.modify k (index :: ·)
    | none => sorted) (Array.replicate size []))

def ofGrammar (g : Grammar) : Tables :=
  let v := g.vocabulary
  let terminals := v.terminals.toArray
  let phrases := v.phrases.toArray
  let productions := g.productions v
  let firsts := firstsFrom terminals productions phrases.size (Array.replicate phrases.size 0)
  let leads := leadsOf terminals firsts productions phrases.size
  let whole : Production := ⟨phrases.size, #[⟨v.ofKind .program, {}⟩], 0⟩
  { grammar := g, terminals, phrases, productions := productions.push whole, firsts
    openings := (Array.range phrases.size).map (openingsOf leads terminals.size)
    byTerminal := sortedBy (fun | .terminal t => some t | .phrase _ => none) productions terminals.size
    byPhrase := sortedBy (fun | .phrase p => some p | .terminal _ => none) productions phrases.size }

def starts (t : Tables) (s : Step) : Nat :=
  startsOf t.terminals t.firsts s

end Tables

/-! ## States -/

/-- A production that is read up to the dot, and the terminals that may follow it in the end. -/
structure Item where
  production : Nat
  dot : Nat
  follow : Nat
deriving DecidableEq, Hashable, Repr

structure State where
  items : List Item := []
  /-- Terminals by which one of the items goes on. -/
  shifts : Nat := 0
  /-- Terminals that go on with an item or end one. -/
  expected : Nat := 0
  /-- For each phrase that can start here the terminals that can follow it. -/
  follows : Array Nat := #[]

instance : Inhabited State := ⟨{}⟩

namespace Item

def production! (t : Tables) (i : Item) : Production :=
  t.productions.getD i.production default

def next? (t : Tables) (i : Item) : Option Step :=
  (i.production! t).steps[i.dot]?

def rank (t : Tables) (i : Item) : Option Rank :=
  ((i.production! t).steps[i.dot - 1]?).bind (·.marks.rank)

def side (t : Tables) (i : Item) : Option Side :=
  ((i.production! t).steps[i.dot - 1]?).bind (·.marks.side)

def followOfNext (t : Tables) (i : Item) : Nat :=
  match (i.production! t).steps[i.dot + 1]? with
  | some s => t.starts s
  | none => i.follow

/-- The kind of the phrase; none for a run. -/
def kind? (t : Tables) (i : Item) : Option Kind :=
  match t.phrases[(i.production! t).phrase]? with
  | some (.kind k) => some k
  | _ => none

def before (a b : Item) : Bool :=
  a.dot < b.dot || (a.dot == b.dot && a.production ≤ b.production)

end Item

namespace State

def addFollow (known : List (Nat × Nat)) (p follow : Nat) : List (Nat × Nat) :=
  match known with
  | [] => [(p, follow)]
  | (q, f) :: rest => if p == q then (q, f ||| follow) :: rest else (q, f) :: addFollow rest p follow

def followsOf (t : Tables) (items : List Item) : Array Nat :=
  let direct := items.foldl (fun known i =>
    match i.next? t with
    | some ⟨.phrase p, _⟩ => addFollow known p (i.followOfNext t)
    | _ => known) []
  direct.foldl (fun follows (p, follow) =>
    (t.openings.getD p []).foldl (fun follows (q, after, passes) =>
      follows.modify q (· ||| (if passes then after ||| follow else after))) follows)
    (Array.replicate t.phrases.size 0)

def ofItems (t : Tables) (items : List Item) : State :=
  let shifts := items.foldl (fun bits i =>
    match i.next? t with
    | some s => bits ||| t.starts s
    | none => bits) 0
  let ends := items.foldl (fun bits i =>
    match i.next? t with
    | some _ => bits
    | none => bits ||| i.follow) 0
  { items, shifts, expected := shifts ||| ends, follows := followsOf t items }

/-- Before the text: the whole of it is to come, or it is empty. -/
def start (t : Tables) : State :=
  let ofTextEnd (production : Nat) : Item :=
    ⟨production, 0, 1 <<< t.terminals.idxOf (.kind .endOfText)⟩
  let empty := t.productions.zipIdx.toList.filterMap fun (p, index) =>
    if p.steps.isEmpty then some (ofTextEnd index) else none
  ofItems t (empty ++ [ofTextEnd (t.productions.size - 1)])

def expects (s : State) (terminal : Nat) : Bool :=
  s.expected.testBit terminal

def itemsAfter (t : Tables) (s : State) (symbol : Symbol) : List Item :=
  let advanced := (s.items.filter fun i => (i.next? t).any (·.symbol == symbol)).map
    fun i => { i with dot := i.dot + 1 }
  let opening := match symbol with
    | .terminal x => t.byTerminal.getD x []
    | .phrase p => t.byPhrase.getD p []
  let opened := opening.filterMap fun index =>
    match s.follows.getD (t.productions.getD index default).phrase 0 with
    | 0 => none
    | follow => some { production := index, dot := 1, follow : Item }
  (advanced ++ opened).mergeSort Item.before

end State

/-! ## What to do with a terminal -/

namespace Tables

def speaksOf (rank : Option Rank) (kinds : List Kind) : Binding → Bool
  | .level l => rank == some (.level l)
  | .kind k => kinds.contains k

/-- Compares two ranks by one list; `seen` are the sides met so far. -/
def compareBy (left right : Binding → Bool) (seenLeft seenRight : Bool) :
    List Binding → Option Ordering
  | [] => none
  | b :: rest =>
    if left b then
      if seenRight then some .lt else compareBy left right true seenRight rest
    else if right b then
      if seenLeft then some .gt else compareBy left right seenLeft true rest
    else compareBy left right seenLeft seenRight rest

def rankNumber : Option Rank → Option Int
  | none => some 0
  | some (.number n) => some n
  | some (.level _) => none

/-- Which of two phrases binds first. Numbers compare with numbers, and no rank is zero; all else is
for the orders of the grammar. -/
def compareRanks (t : Tables) (left : Option Rank) (leftKinds : List Kind) (right : Option Rank)
    (rightKinds : List Kind) : Ordering :=
  let byOrder := (t.grammar.order.findSome?
    (compareBy (speaksOf left leftKinds) (speaksOf right rightKinds) false false)).getD .eq
  match rankNumber left, rankNumber right with
  | some a, some b => if a == 0 && b == 0 then byOrder else compare a b
  | _, _ => byOrder

def strongest (t : Tables) : List Item → List Item → List Item
  | chosen, [] => chosen.reverse
  | [], i :: rest => strongest t [i] rest
  | c :: chosen, i :: rest =>
    match t.compareRanks (i.rank t) (i.kind? t).toList (c.rank t)
        ((c :: chosen).filterMap (·.kind? t)) with
    | .gt => strongest t [i] rest
    | .eq => strongest t (i :: c :: chosen) rest
    | .lt => strongest t (c :: chosen) rest

end Tables

/-- A terminal can be taken, or can end items; where the grammar leaves more than one of these open,
all of them are tried. -/
structure Actions where
  shift : Bool := false
  ends : List Item := []

namespace State

def settle (t : Tables) (s : State) (terminal : Nat) (ends : List Item) : Actions :=
  let going := s.items.filter fun i =>
    i.dot != 0 && (i.next? t).any fun step => (t.starts step).testBit terminal
  let ending := s.items.filter fun i => (i.next? t).isNone && i.follow.testBit terminal
  let phrases := ((going ++ ending).map fun i => (i.production! t).phrase).eraseDups
  if phrases.length == 1 && (going ++ ending).all fun i => (i.kind? t).isNone then
    { ends }
  else
    let rank := ends.getLast?.bind (·.rank t)
    let kinds := ends.filterMap (·.kind? t)
    let verdicts := going.map fun i => t.compareRanks (i.rank t) (i.kind? t).toList rank kinds
    let tighter := verdicts.contains .gt
    let looser := verdicts.contains .lt
    if tighter && !looser then { shift := true }
    else if looser && !tighter then { ends }
    else if !looser && !tighter && ends.all (·.side t == some .left) then { ends }
    else if !looser && !tighter && ends.all (·.side t == some .right) then { shift := true }
    else { shift := true, ends }

def actions (t : Tables) (s : State) (terminal : Nat) : Actions :=
  let ends := t.strongest [] (s.items.filter fun i =>
    (i.next? t).isNone && i.follow.testBit terminal)
  if s.shifts.testBit terminal then
    if ends.isEmpty then { shift := true } else s.settle t terminal ends
  else { ends }

end State

end CodeAtlas.Script
