import CodeAtlas.Text.Basic
import CodeAtlas.Text.Word

/-!
# Patterns over lines of text

A pattern is tried at a point of a text and takes the first match in the order of its choices: the
left alternative before the right one, more repetitions before fewer unless it is reluctant. A part
of the match can be kept.
-/

namespace CodeAtlas

inductive Pattern where
  | empty
  | one (accepts : Char → Bool)
  /-- At least so many characters of a class, as many as possible or, when reluctant, as few. -/
  | run (accepts : Char → Bool) (least : Nat) (reluctant : Bool)
  | seq (first second : Pattern)
  | alt (left right : Pattern)
  /-- Any number of times, as often as possible. -/
  | star (p : Pattern)
  /-- Keeps the text that is matched. -/
  | keep (p : Pattern)
  | lineStart
  | lineEnd
  /-- Between a word character and something else. -/
  | wordEdge

namespace Pattern

/-- A place in a text: the character before it, the text behind it, and what was kept so far. -/
structure Point where
  before : Option Char
  rest : List Char
  index : Nat
  kept : Option String := none

namespace Point

def ofText (text : String) : Point :=
  { before := none, rest := text.toList, index := 0 }

def next? (s : Point) : Option (Char × Point) :=
  match s.rest with
  | [] => none
  | c :: rest => some (c, { s with before := some c, rest, index := s.index + 1 })

def atLineStart (s : Point) : Bool :=
  s.before.isNone || s.before == some '\n'

def atLineEnd (s : Point) : Bool :=
  s.rest.head?.isNone || s.rest.head? == some '\n'

def atWordEdge (s : Point) : Bool :=
  (s.before.map Text.isWord).getD false != (s.rest.head?.map Text.isWord).getD false

/-- The points after each further character of the class, the farthest first, added to those
before. -/
def runFrom (accepts : Char → Bool) (kept : Option String) :
    List Char → Option Char → Nat → List Point → List Point
  | [], before, index, acc => ⟨before, [], index, kept⟩ :: acc
  | c :: rest, before, index, acc =>
    let here : Point := ⟨before, c :: rest, index, kept⟩
    if accepts c then runFrom accepts kept rest (some c) (index + 1) (here :: acc) else here :: acc

def run (s : Point) (accepts : Char → Bool) : List Point :=
  runFrom accepts s.kept s.rest s.before s.index []

def keepFrom (s start : Point) : Point :=
  { s with kept := some (String.ofList (start.rest.take (s.index - start.index))) }

end Point

/-- Repeats a step as often as possible before going on; a repetition has to take something. -/
def repeatStep (step : Point → (Point → Option Point) → Option Point) (go : Point → Option Point) :
    Nat → Point → Option Point
  | 0, s => go s
  | fuel + 1, s =>
    match step s fun t => if s.index < t.index then repeatStep step go fuel t else none with
    | some t => some t
    | none => go s

/-- The end of the first match from the point with which the rest can go on. -/
def matchThen : Pattern → Point → (Point → Option Point) → Option Point
  | empty, s, go => go s
  | one accepts, s, go =>
    match s.next? with
    | some (c, t) => if accepts c then go t else none
    | none => none
  | run accepts least reluctant, s, go =>
    let points := (s.run accepts).filter fun t => s.index + least ≤ t.index
    (if reluctant then points.reverse else points).findSome? go
  | seq p q, s, go => matchThen p s fun t => matchThen q t go
  | alt p q, s, go =>
    match matchThen p s go with
    | some t => some t
    | none => matchThen q s go
  | star p, s, go => repeatStep (matchThen p) go s.rest.length s
  | keep p, s, go => matchThen p s fun t => go (t.keepFrom s)
  | lineStart, s, go => if s.atLineStart then go s else none
  | lineEnd, s, go => if s.atLineEnd then go s else none
  | wordEdge, s, go => if s.atWordEdge then go s else none

def matchAt (p : Pattern) (s : Point) : Option Point :=
  matchThen p s some

/-- The kept texts of the matches from left to right; matches do not overlap. -/
def keptFrom (p : Pattern) : List Char → Option Char → Nat → Nat → List String
  | [], _, _, _ => []
  | c :: rest, before, index, resume =>
    if index < resume then keptFrom p rest (some c) (index + 1) resume
    else match p.matchAt ⟨before, c :: rest, index, none⟩ with
      | some t => t.kept.getD "" :: keptFrom p rest (some c) (index + 1) t.index
      | none => keptFrom p rest (some c) (index + 1) resume

def keptTexts (p : Pattern) (text : String) : List String :=
  keptFrom p text.toList none 0 0

/-! ## Ways to write patterns -/

def all : List Pattern → Pattern
  | [] => empty
  | [p] => p
  | p :: ps => seq p (all ps)

def any : List Pattern → Pattern
  | [] => one fun _ => false
  | [p] => p
  | p :: ps => alt p (any ps)

def optional (p : Pattern) : Pattern :=
  alt p empty

def plus (p : Pattern) : Pattern :=
  seq p (star p)

def lit (s : String) : Pattern :=
  all (s.toList.map fun c => one (· == c))

def words (ws : List String) : Pattern :=
  any (ws.map lit)

def some0 (accepts : Char → Bool) : Pattern :=
  run accepts 0 false

def some1 (accepts : Char → Bool) : Pattern :=
  run accepts 1 false

def blanks0 : Pattern := some0 Text.isBlank

def blanks1 : Pattern := some1 Text.isBlank

/-- Blanks that stay on the line. -/
def isTab (c : Char) : Bool :=
  c == ' ' || c == '\t'

def tabs0 : Pattern := some0 isTab

def tabs1 : Pattern := some1 isTab

def isOneOf (chars : String) (c : Char) : Bool :=
  chars.toList.contains c

def isNoneOf (chars : String) (c : Char) : Bool :=
  !chars.toList.contains c

def isWordOr (chars : String) (c : Char) : Bool :=
  Text.isWord c || chars.toList.contains c

def isCapital (c : Char) : Bool :=
  'A' ≤ c && c ≤ 'Z'

def isSmall (c : Char) : Bool :=
  'a' ≤ c && c ≤ 'z'

def word1 : Pattern := some1 Text.isWord

def word0 : Pattern := some0 Text.isWord

def name : Pattern := keep word1

def quote : Pattern := one (isOneOf "'\"")

def quotedText : Pattern :=
  all [quote, keep (some1 (isNoneOf "'\"")), quote]

def modifiers (ws : List String) : Pattern :=
  star (seq (words ws) blanks1)

def modifier? (w : String) : Pattern :=
  optional (seq (lit w) blanks1)

/-- The start of a line and the blanks after it, which may run over further lines. -/
def lineOf (ps : List Pattern) : Pattern :=
  all (lineStart :: blanks0 :: ps)

/-- The letter in either case. A few letters beyond ASCII count as one of them too. -/
def sameLetter (letter c : Char) : Bool :=
  c.toLower == letter
    || (letter == 'i' && (c == '\u0130' || c == '\u0131'))
    || (letter == 's' && c == '\u017f')
    || (letter == 'k' && c == '\u212a')

def anyCase (s : String) : Pattern :=
  all (s.toList.map fun l => one (sameLetter l))

end Pattern

end CodeAtlas
