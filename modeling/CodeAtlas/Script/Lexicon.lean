import CodeAtlas.Script.Automaton
import CodeAtlas.Script.Cursor
import CodeAtlas.Script.Semicolon

/-!
# Reading a lexeme

Which lexeme stands at a place depends on what the parser expects there: only expected lexemes are
read, the longest of them wins, and a keyword is a name where it is not expected as a keyword.
-/

namespace CodeAtlas.Script

structure Lexicon where
  typed : Bool
  /-- The number of a kind of lexemes. -/
  numbers : Array (Option Nat)
  /-- Longer marks come before the marks they start with. -/
  marks : List (List Char × Nat)
  words : Std.HashMap String Nat
  wordSet : Nat
  reservedSet : Nat
  anyWord : Nat
  operand : Option Nat

/-- A lexeme and whether it is a keyword that could be a name. -/
structure Lexed where
  terminal : Nat
  start : Cursor
  stop : Cursor
  keyword : Bool := false

namespace Lexicon

def isWord (spelling : String) : Bool :=
  spelling.toList.all Char.isAlpha

def ofTables (t : Tables) : Lexicon :=
  let spellings := t.terminals.toList.zipIdx.filterMap fun (x, index) =>
    match x with
    | .mark s => some (s, index)
    | .kind _ => none
  let (words, marks) := spellings.partition fun (s, _) => isWord s
  let bitsOf (entries : List (String × Nat)) := entries.foldl (fun bits e => bits ||| 1 <<< e.2) 0
  { typed := t.grammar.typed
    numbers := t.terminals.zipIdx.foldl (fun numbers (x, index) =>
      match x with
      | .kind k => numbers.setIfInBounds k.ctorIdx (some index)
      | .mark _ => numbers) (Array.replicate (Kind.typeName.ctorIdx + 1) none)
    marks := (marks.map fun (s, index) => (s.toList, index)).mergeSort
      fun a b => b.1.length ≤ a.1.length
    words := words.foldl (fun map (s, index) => map.insert s index) {}
    wordSet := bitsOf words
    reservedSet := bitsOf (words.filter fun (s, _) => t.grammar.reserved.contains s)
    anyWord := t.terminals.size
    operand := (marks.find? (·.1 == "||")).map (·.2) }

def number? (x : Lexicon) (k : Kind) : Option Nat :=
  x.numbers.getD k.ctorIdx none

def expects (x : Lexicon) (expected : Nat) (k : Kind) : Bool :=
  (x.number? k).any expected.testBit

def reserves (x : Lexicon) (expected : Nat) (word : Nat) : Bool :=
  x.reservedSet.testBit word && !expected.testBit x.anyWord && x.expects expected .identifier

/-! ## Lexemes known by their surroundings -/

def lexeme? (x : Lexicon) (k : Kind) (c : Cursor) (behind length : Nat) : Option Lexed :=
  (x.number? k).map fun terminal =>
    let start := c.advance behind
    { terminal, start, stop := start.advance length }

def ternaryAt? (x : Lexicon) (c : Cursor) : Option Lexed := do
  let spaces ← Lexeme.ternaryMark x.typed c.rest
  x.lexeme? .ternaryMark c spaces 1

def markupCommentAt? (x : Lexicon) (c : Cursor) : Option Lexed := do
  let (spaces, length) ← Lexeme.markupComment c.rest
  x.lexeme? .markupComment c spaces length

/-- A semicolon left out takes no text. Where none is, a question mark found on the way is taken. -/
def semicolonAt? (x : Lexicon) (expected : Nat) (c : Cursor) : Option Lexed :=
  let place : Lexeme.SemicolonPlace :=
    { typed := x.typed, operand := x.operand.any expected.testBit
      signature := x.expects expected .signatureSemicolon }
  let search := Lexeme.searchSemicolon place c.left c.rest
  if search.found then x.lexeme? .automaticSemicolon c 0 0
  else if !search.commented && x.expects expected .ternaryMark then
    let d := c.advance search.length
    if d.rest.head? == some '?' then x.ternaryAt? d else none
  else none

def surrounded? (x : Lexicon) (expected : Nat) (c : Cursor) : Option Lexed :=
  let wants := x.expects expected
  if wants .templateText then
    if wants .automaticSemicolon then none
    else (Lexeme.templateText c.rest).bind (x.lexeme? .templateText c 0)
  else
    let text := if wants .jsxText then
        (Lexeme.tagText c.rest).bind (x.lexeme? .jsxText c 0)
      else none
    text <|>
      if wants .automaticSemicolon || wants .signatureSemicolon then x.semicolonAt? expected c
      else if wants .ternaryMark then x.ternaryAt? c
      else if !x.operand.any expected.testBit && !wants .escapeSequence && !wants .regexPattern then
        x.markupCommentAt? c
      else none

/-! ## Lexemes known by their own text -/

/-- Text inside of quotes goes before everything else. -/
def quotedKinds : List (Kind × (List Char → Option Nat)) :=
  [(.doubleQuotedText, Lexeme.quotedText '"'), (.singleQuotedText, Lexeme.quotedText '\''),
   (.doubleAttributeText, Lexeme.attributeText '"'),
   (.singleAttributeText, Lexeme.attributeText '\''),
   (.regexEnd, fun text => if text.head? == some '/' then some 1 else none)]

def attachedKinds : List (Kind × (List Char → Option Nat)) :=
  [(.regexFlags, Lexeme.regexFlags), (.escapeSequence, Lexeme.escapeSequence)]

/-- A pattern gives way to a comment of the same length. -/
def patternKinds : List (Kind × (List Char → Option Nat)) :=
  [(.regexPattern, Lexeme.regexPattern)]

def freeKinds : List (Kind × (List Char → Option Nat)) :=
  [(.number, Lexeme.number), (.privateIdentifier, Lexeme.privateName),
   (.jsxIdentifier, Lexeme.dashedName), (.characterReference, Lexeme.characterReference),
   (.hashBang, Lexeme.hashBang), (.staticGet, Lexeme.staticGet)]

structure Candidate where
  terminal : Nat
  blanks : Nat
  length : Nat

def Candidate.stop (a : Candidate) : Nat :=
  a.blanks + a.length

/-- The longest lexeme; the first among equals. -/
def longest (candidates : List Candidate) : Option Candidate :=
  candidates.foldl (fun best a =>
    match best with
    | some b => if b.stop < a.stop then some a else some b
    | none => some a) none

def candidatesOf (x : Lexicon) (expected blanks : Nat) (text : List Char)
    (kinds : List (Kind × (List Char → Option Nat))) : List Candidate :=
  kinds.filterMap fun (k, measure) => do
    let terminal ← x.number? k
    if expected.testBit terminal then
      let length ← measure text
      return { terminal, blanks, length }
    else none

def markAt? (x : Lexicon) (expected : Nat) (text : List Char) : Option (Nat × Nat) :=
  (x.marks.find? fun (m, index) => expected.testBit index && m.isPrefixOf text).map
    fun (m, index) => (index, m.length)

def nameAt? (x : Lexicon) (expected : Nat) (text : List Char) : Option Nat :=
  if x.expects expected .identifier || (x.wordSet &&& expected) != 0 then Lexeme.name text else none

/-- A word is a keyword where one is expected or reserved, and a name elsewhere. -/
def wordTerminal (x : Lexicon) (expected : Nat) (word : String) (name : Nat) : Nat × Bool :=
  match x.words[word]? with
  | some index =>
    if expected.testBit index || (x.reservedSet.testBit index && !expected.testBit x.anyWord)
    then (index, true) else (name, false)
  | none => (name, false)

def ownText? (x : Lexicon) (expected : Nat) (c : Cursor) : Option Lexed :=
  match x.candidatesOf expected 0 c.rest quotedKinds with
  | a :: _ => some ⟨a.terminal, c, c.advance a.length, false⟩
  | [] =>
    let blanks := Lexeme.blanks c.rest
    let d := c.advance blanks
    let marks := (x.markAt? expected d.rest).map fun (terminal, length) =>
      ({ terminal, blanks, length } : Candidate)
    let comment : Option Candidate := do
      let terminal ← x.number? .comment
      let length ← Lexeme.comment d.rest
      return { terminal, blanks, length }
    let name : Option Candidate := do
      let terminal ← x.number? .identifier
      let length ← x.nameAt? expected d.rest
      return { terminal, blanks, length }
    let all := marks.toList ++ x.candidatesOf expected 0 c.rest attachedKinds ++ comment.toList
      ++ x.candidatesOf expected blanks d.rest freeKinds ++ name.toList
      ++ x.candidatesOf expected 0 c.rest patternKinds
    match longest all with
    | some a =>
      let start := c.advance a.blanks
      let stop := start.advance a.length
      if some a.terminal == x.number? .identifier then
        let (terminal, keyword) := x.wordTerminal expected (start.textTo stop) a.terminal
        some { terminal, start, stop, keyword }
      else some { terminal := a.terminal, start, stop }
    | none =>
      if d.rest.isEmpty then (x.number? .endOfText).map ({ terminal := ·, start := d, stop := d })
      else none

def read (x : Lexicon) (expected : Nat) (c : Cursor) : Option Lexed :=
  x.surrounded? expected c <|> x.ownText? expected c

end Lexicon

end CodeAtlas.Script
