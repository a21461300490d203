import CodeAtlas.Json.Reader
import Mathlib.Data.List.Infix

/-!
# JSON texts

A document is a text of a value, token by token. It says what stands between the tokens, how strings
and numbers are noted, and where a comma follows a last item. The text, the value and the document
without comments and such commas are computed from it.
-/

namespace CodeAtlas.Json

/-! ## Between tokens -/

theorem isSpace_newline : isSpace '\n' = true :=
  rfl

theorem isSpace_space : isSpace ' ' = true :=
  rfl

inductive Filler where
  | space (c : Char) (h : isSpace c = true)
  /-- From two slashes to the end of the line. -/
  | line (body : List Char) (h : '\n' ∉ body)
  | block (body : List Char) (h : ¬ ['*', '/'] <:+: body)

abbrev Gap := List Filler

namespace Filler

def text : Filler → List Char
  | space c _ => [c]
  | line body _ => '/' :: '/' :: (body ++ ['\n'])
  | block body _ => '/' :: '*' :: (body ++ ['*', '/'])

/-- A comment leaves nothing but the newline that ends it. -/
def stripped : Filler → Gap
  | space c h => [space c h]
  | line _ _ => [space '\n' isSpace_newline]
  | block _ _ => []

def IsSpace : Filler → Prop
  | space _ _ => True
  | _ => False

end Filler

namespace Gap

def text (g : Gap) : List Char :=
  g.flatMap Filler.text

def stripped (g : Gap) : Gap :=
  g.flatMap Filler.stripped

def IsStrict (g : Gap) : Prop :=
  ∀ f ∈ g, f.IsSpace

@[simp] theorem text_append (g h : Gap) : Gap.text (g ++ h) = Gap.text g ++ Gap.text h := by
  simp [text]

@[simp] theorem text_nil : Gap.text [] = [] :=
  rfl

theorem isStrict_nil : Gap.IsStrict [] :=
  List.forall_mem_nil _

theorem stripped_isStrict (g : Gap) : (Gap.stripped g).IsStrict := by
  intro f hf
  obtain ⟨f', -, hf⟩ := List.mem_flatMap.1 hf
  cases f' with
  | space c h =>
    obtain rfl := List.mem_singleton.1 hf
    trivial
  | line body h =>
    obtain rfl := List.mem_singleton.1 hf
    trivial
  | block body h => cases hf

theorem stripped_of_isStrict {g : Gap} (h : Gap.IsStrict g) : Gap.stripped g = g := by
  induction g with
  | nil => rfl
  | cons f g ih =>
    have hf := h f (by simp)
    have hg := ih fun f hf => h f (by simp [hf])
    cases f with
    | space c hc => simpa [stripped, Filler.stripped] using hg
    | line body hb => cases hf
    | block body hb => cases hf

theorem isSpace_of_isStrict {g : Gap} (h : Gap.IsStrict g) {c : Char} (hc : c ∈ Gap.text g) :
    isSpace c = true := by
  obtain ⟨f, hf, hc⟩ := List.mem_flatMap.1 hc
  have hspace := h f hf
  cases f with
  | space d hd =>
    obtain rfl := List.mem_singleton.1 hc
    exact hd
  | line body hb => cases hspace
  | block body hb => cases hspace

end Gap

/-! ## Strings -/

structure CodeUnit where
  digits : Char × Char × Char × Char
  value : Nat
  spells : hex4? digits.1 digits.2.1 digits.2.2.1 digits.2.2.2 = some value

def CodeUnit.text (u : CodeUnit) : List Char :=
  ['\\', 'u', u.digits.1, u.digits.2.1, u.digits.2.2.1, u.digits.2.2.2]

def escapes : List (Char × Char) :=
  [('"', '"'), ('\\', '\\'), ('/', '/'), ('b', '\x08'), ('f', '\x0c'), ('n', '\n'), ('r', '\r'),
   ('t', '\t')]

/-- A character of a string as it is noted. Half of a pair of code units is no character. -/
inductive Piece where
  | plain (c : Char) (h : c ≠ '"' ∧ c ≠ '\\' ∧ 0x20 ≤ c.toNat)
  | escape (e c : Char) (h : (e, c) ∈ escapes)
  | point (u : CodeUnit) (h : u.value < 0xd800 ∨ 0xe000 ≤ u.value)
  | pair (high low : CodeUnit) (hhigh : 0xd800 ≤ high.value ∧ high.value < 0xdc00)
    (hlow : 0xdc00 ≤ low.value ∧ low.value < 0xe000)

namespace Piece

def text : Piece → List Char
  | plain c _ => [c]
  | escape e _ _ => ['\\', e]
  | point u _ => u.text
  | pair high low _ _ => high.text ++ low.text

def char : Piece → Char
  | plain c _ => c
  | escape _ c _ => c
  | point u _ => Char.ofNat u.value
  | pair high low _ _ =>
    Char.ofNat (0x10000 + (high.value - 0xd800) * 0x400 + (low.value - 0xdc00))

end Piece

structure Quote where
  pieces : List Piece

namespace Quote

def text (q : Quote) : List Char :=
  '"' :: (q.pieces.flatMap Piece.text ++ ['"'])

def value (q : Quote) : String :=
  String.ofList (q.pieces.map Piece.char)

end Quote

/-! ## Numbers -/

structure Exponent where
  mark : Char
  mark_eq : mark = 'e' ∨ mark = 'E'
  /-- Nothing, or one sign. -/
  sign : Option Bool
  digits : List Char
  digits_ne : digits ≠ []
  isDigit : ∀ c ∈ digits, c.isDigit = true

namespace Exponent

def signText (e : Exponent) : List Char :=
  match e.sign with
  | none => []
  | some true => ['-']
  | some false => ['+']

def text (e : Exponent) : List Char :=
  e.mark :: (e.signText ++ e.digits)

def value (e : Exponent) : Int :=
  if e.sign = some true then -(Nat.ofDigitChars 10 e.digits 0 : Nat)
  else (Nat.ofDigitChars 10 e.digits 0 : Nat)

end Exponent

structure Numeral where
  negative : Bool
  whole : List Char
  whole_ne : whole ≠ []
  /-- A zero in front stands alone. -/
  leading : whole = ['0'] ∨ whole.head? ≠ some '0'
  /-- Nothing if there is no point. -/
  places : List Char
  isDigit : ∀ c ∈ whole ++ places, c.isDigit = true
  exponent : Option Exponent

namespace Numeral

def placesText (n : Numeral) : List Char :=
  match n.places with
  | [] => []
  | ds => '.' :: ds

def exponentText (n : Numeral) : List Char :=
  match n.exponent with
  | none => []
  | some e => e.text

def sizeText (n : Numeral) : List Char :=
  n.whole ++ (n.placesText ++ n.exponentText)

def text (n : Numeral) : List Char :=
  if n.negative then '-' :: n.sizeText else n.sizeText

def isInteger (n : Numeral) : Bool :=
  n.places.isEmpty && n.exponent.isNone

def significant (n : Numeral) : List Char :=
  (n.whole ++ n.places).dropWhile (· == '0')

def value (n : Numeral) : Json :=
  if n.isInteger then
    .int (if n.negative then -(Nat.ofDigitChars 10 n.whole 0 : Nat) else (Nat.ofDigitChars 10 n.whole 0 : Nat))
  else
    .real (.ofDecimal n.negative (Nat.ofDigitChars 10 n.significant 0) n.significant.length
      ((n.exponent.map Exponent.value).getD 0 - n.places.length))

end Numeral

/-! ## Documents -/

mutual

inductive Doc where
  | null
  | bool (b : Bool)
  | number (n : Numeral)
  | string (q : Quote)
  | emptyArray (gap : Gap)
  | array (items : Items)
  | emptyObject (gap : Gap)
  | object (members : Members)

inductive Items where
  | last (lead : Gap) (d : Doc) (trail : Gap) (comma : Option Gap)
  | cons (lead : Gap) (d : Doc) (trail : Gap) (rest : Items)

inductive Members where
  | last (lead : Gap) (key : Quote) (before after : Gap) (d : Doc) (trail : Gap)
    (comma : Option Gap)
  | cons (lead : Gap) (key : Quote) (before after : Gap) (d : Doc) (trail : Gap)
    (rest : Members)

end

def commaText : Option Gap → List Char
  | none => []
  | some gap => ',' :: Gap.text gap

mutual

def Doc.text : Doc → List Char
  | .null => "null".toList
  | .bool b => (if b then "true" else "false").toList
  | .number n => n.text
  | .string q => q.text
  | .emptyArray gap => '[' :: (Gap.text gap ++ [']'])
  | .array items => '[' :: (items.text ++ [']'])
  | .emptyObject gap => '{' :: (Gap.text gap ++ ['}'])
  | .object members => '{' :: (members.text ++ ['}'])

def Items.text : Items → List Char
  | .last lead d trail comma => Gap.text lead ++ (d.text ++ (Gap.text trail ++ commaText comma))
  | .cons lead d trail rest => Gap.text lead ++ (d.text ++ (Gap.text trail ++ ',' :: rest.text))

def Members.text : Members → List Char
  | .last lead key before after d trail comma =>
    Gap.text lead ++ (key.text ++ (Gap.text before ++ ':' :: (Gap.text after
      ++ (d.text ++ (Gap.text trail ++ commaText comma)))))
  | .cons lead key before after d trail rest =>
    Gap.text lead ++ (key.text ++ (Gap.text before ++ ':' :: (Gap.text after
      ++ (d.text ++ (Gap.text trail ++ ',' :: rest.text)))))

end

mutual

def Doc.value : Doc → Json
  | .null => .null
  | .bool b => .bool b
  | .number n => n.value
  | .string q => .str q.value
  | .emptyArray _ => .arr []
  | .array items => .arr items.values
  | .emptyObject _ => .obj []
  | .object members => .obj (members.addTo [])

def Items.values : Items → List Json
  | .last _ d _ _ => [d.value]
  | .cons _ d _ rest => d.value :: rest.values

def Members.addTo (before : List (String × Json)) : Members → List (String × Json)
  | .last _ key _ _ d _ _ => insertMember before key.value d.value
  | .cons _ key _ _ d _ rest => rest.addTo (insertMember before key.value d.value)

end

mutual

def Doc.depth : Doc → Nat
  | .emptyArray _ => 1
  | .array items => items.depth + 1
  | .emptyObject _ => 1
  | .object members => members.depth + 1
  | _ => 0

def Items.depth : Items → Nat
  | .last _ d _ _ => d.depth
  | .cons _ d _ rest => max d.depth rest.depth

def Members.depth : Members → Nat
  | .last _ _ _ _ d _ _ => d.depth
  | .cons _ _ _ _ d _ rest => max d.depth rest.depth

end

mutual

def Doc.width : Doc → Nat
  | .number n => if n.isInteger then n.whole.length else 0
  | .array items => items.width
  | .object members => members.width
  | _ => 0

def Items.width : Items → Nat
  | .last _ d _ _ => d.width
  | .cons _ d _ rest => max d.width rest.width

def Members.width : Members → Nat
  | .last _ _ _ _ d _ _ => d.width
  | .cons _ _ _ _ d _ rest => max d.width rest.width

end

/-! ## Without comments and last commas -/

mutual

def Doc.stripped : Doc → Doc
  | .emptyArray gap => .emptyArray (Gap.stripped gap)
  | .array items => .array items.stripped
  | .emptyObject gap => .emptyObject (Gap.stripped gap)
  | .object members => .object members.stripped
  | d => d

def Items.stripped : Items → Items
  | .last lead d trail comma =>
    .last (Gap.stripped lead) d.stripped (Gap.stripped (trail ++ comma.getD [])) none
  | .cons lead d trail rest =>
    .cons (Gap.stripped lead) d.stripped (Gap.stripped trail) rest.stripped

def Members.stripped : Members → Members
  | .last lead key before after d trail comma =>
    .last (Gap.stripped lead) key (Gap.stripped before) (Gap.stripped after) d.stripped
      (Gap.stripped (trail ++ comma.getD [])) none
  | .cons lead key before after d trail rest =>
    .cons (Gap.stripped lead) key (Gap.stripped before) (Gap.stripped after) d.stripped
      (Gap.stripped trail) rest.stripped

end

mutual

/-- Nothing but blanks between the tokens, and no comma behind a last item. -/
def Doc.IsStrict : Doc → Prop
  | .emptyArray gap => Gap.IsStrict gap
  | .array items => items.IsStrict
  | .emptyObject gap => Gap.IsStrict gap
  | .object members => members.IsStrict
  | _ => True

def Items.IsStrict : Items → Prop
  | .last lead d trail comma =>
    Gap.IsStrict lead ∧ d.IsStrict ∧ Gap.IsStrict trail ∧ comma = none
  | .cons lead d trail rest =>
    Gap.IsStrict lead ∧ d.IsStrict ∧ Gap.IsStrict trail ∧ rest.IsStrict

def Members.IsStrict : Members → Prop
  | .last lead _ before after d trail comma =>
    Gap.IsStrict lead ∧ Gap.IsStrict before ∧ Gap.IsStrict after ∧ d.IsStrict
      ∧ Gap.IsStrict trail ∧ comma = none
  | .cons lead _ before after d trail rest =>
    Gap.IsStrict lead ∧ Gap.IsStrict before ∧ Gap.IsStrict after ∧ d.IsStrict
      ∧ Gap.IsStrict trail ∧ rest.IsStrict

end

mutual

theorem Doc.stripped_isStrict (d : Doc) : d.stripped.IsStrict := by
  cases d with
  | array items => exact items.stripped_isStrict
  | object members => exact members.stripped_isStrict
  | emptyArray gap => exact Gap.stripped_isStrict gap
  | emptyObject gap => exact Gap.stripped_isStrict gap
  | _ => trivial

theorem Items.stripped_isStrict (items : Items) : items.stripped.IsStrict := by
  cases items with
  | last lead d trail comma =>
    exact ⟨Gap.stripped_isStrict _, d.stripped_isStrict, Gap.stripped_isStrict _, rfl⟩
  | cons lead d trail rest =>
    exact ⟨Gap.stripped_isStrict _, d.stripped_isStrict, Gap.stripped_isStrict _,
      rest.stripped_isStrict⟩

theorem Members.stripped_isStrict (members : Members) : members.stripped.IsStrict := by
  cases members with
  | last lead key before after d trail comma =>
    exact ⟨Gap.stripped_isStrict _, Gap.stripped_isStrict _, Gap.stripped_isStrict _,
      d.stripped_isStrict, Gap.stripped_isStrict _, rfl⟩
  | cons lead key before after d trail rest =>
    exact ⟨Gap.stripped_isStrict _, Gap.stripped_isStrict _, Gap.stripped_isStrict _,
      d.stripped_isStrict, Gap.stripped_isStrict _, rest.stripped_isStrict⟩

end

mutual

theorem Doc.stripped_of_isStrict {d : Doc} (h : d.IsStrict) : d.stripped = d := by
  cases d with
  | array items => rw [Doc.stripped, Items.stripped_of_isStrict h]
  | object members => rw [Doc.stripped, Members.stripped_of_isStrict h]
  | emptyArray gap => rw [Doc.stripped, Gap.stripped_of_isStrict h]
  | emptyObject gap => rw [Doc.stripped, Gap.stripped_of_isStrict h]
  | _ => rfl

theorem Items.stripped_of_isStrict {items : Items} (h : items.IsStrict) : items.stripped = items := by
  cases items with
  | last lead d trail comma =>
    obtain ⟨hlead, hd, htrail, rfl⟩ := h
    rw [Items.stripped, Gap.stripped_of_isStrict hlead, Doc.stripped_of_isStrict hd,
      Option.getD_none, List.append_nil, Gap.stripped_of_isStrict htrail]
  | cons lead d trail rest =>
    obtain ⟨hlead, hd, htrail, hrest⟩ := h
    rw [Items.stripped, Gap.stripped_of_isStrict hlead, Doc.stripped_of_isStrict hd,
      Gap.stripped_of_isStrict htrail, Items.stripped_of_isStrict hrest]

theorem Members.stripped_of_isStrict {members : Members} (h : members.IsStrict) :
    members.stripped = members := by
  cases members with
  | last lead key before after d trail comma =>
    obtain ⟨hlead, hbefore, hafter, hd, htrail, rfl⟩ := h
    rw [Members.stripped, Gap.stripped_of_isStrict hlead, Gap.stripped_of_isStrict hbefore,
      Gap.stripped_of_isStrict hafter, Doc.stripped_of_isStrict hd, Option.getD_none,
      List.append_nil, Gap.stripped_of_isStrict htrail]
  | cons lead key before after d trail rest =>
    obtain ⟨hlead, hbefore, hafter, hd, htrail, hrest⟩ := h
    rw [Members.stripped, Gap.stripped_of_isStrict hlead, Gap.stripped_of_isStrict hbefore,
      Gap.stripped_of_isStrict hafter, Doc.stripped_of_isStrict hd,
      Gap.stripped_of_isStrict htrail, Members.stripped_of_isStrict hrest]

end

structure Doc.Agree (d e : Doc) : Prop where
  value : d.value = e.value
  depth : d.depth = e.depth
  width : d.width = e.width

mutual

theorem Doc.stripped_agree (d : Doc) : d.stripped.Agree d := by
  cases d with
  | array items =>
    obtain ⟨hvalues, hdepth, hwidth⟩ := items.stripped_agree
    exact ⟨congrArg Json.arr hvalues, congrArg (· + 1) hdepth, hwidth⟩
  | object members =>
    obtain ⟨hmembers, hdepth, hwidth⟩ := members.stripped_agree
    exact ⟨congrArg Json.obj (hmembers []), congrArg (· + 1) hdepth, hwidth⟩
  | _ => exact ⟨rfl, rfl, rfl⟩

theorem Items.stripped_agree (items : Items) : items.stripped.values = items.values
    ∧ items.stripped.depth = items.depth ∧ items.stripped.width = items.width := by
  cases items with
  | last lead d trail comma =>
    have hd := d.stripped_agree
    simp only [Items.stripped, Items.values, Items.depth, Items.width, hd.value, hd.depth,
      hd.width, and_self]
  | cons lead d trail rest =>
    have hd := d.stripped_agree
    obtain ⟨hvalues, hdepth, hwidth⟩ := rest.stripped_agree
    simp only [Items.stripped, Items.values, Items.depth, Items.width, hd.value, hd.depth,
      hd.width, hvalues, hdepth, hwidth, and_self]

theorem Members.stripped_agree (members : Members) :
    (∀ before, members.stripped.addTo before = members.addTo before)
      ∧ members.stripped.depth = members.depth ∧ members.stripped.width = members.width := by
  cases members with
  | last lead key before after d trail comma =>
    have hd := d.stripped_agree
    simp only [Members.stripped, Members.addTo, Members.depth, Members.width, hd.value, hd.depth,
      hd.width, implies_true, and_self]
  | cons lead key before after d trail rest =>
    have hd := d.stripped_agree
    obtain ⟨hmembers, hdepth, hwidth⟩ := rest.stripped_agree
    simp only [Members.stripped, Members.addTo, Members.depth, Members.width, hd.value, hd.depth,
      hd.width, hmembers, hdepth, hwidth, implies_true, and_self]

end

/-! ## Whole texts -/

structure Document where
  lead : Gap
  body : Doc
  trail : Gap
  /-- A comment that is ended by the end of the text. -/
  last? : Option { cs : List Char // '\n' ∉ cs }

def lastComment : Option { cs : List Char // '\n' ∉ cs } → List Char
  | none => []
  | some cs => '/' :: '/' :: cs.1

namespace Document

def chars (d : Document) : List Char :=
  Gap.text d.lead ++ (d.body.text ++ (Gap.text d.trail ++ lastComment d.last?))

def text (d : Document) : String :=
  String.ofList d.chars

def value (d : Document) : Json :=
  d.body.value

def stripped (d : Document) : Document :=
  ⟨Gap.stripped d.lead, d.body.stripped, Gap.stripped d.trail, none⟩

structure IsStrict (d : Document) : Prop where
  lead : Gap.IsStrict d.lead
  body : d.body.IsStrict
  trail : Gap.IsStrict d.trail
  closed : d.last? = none

theorem stripped_isStrict (d : Document) : d.stripped.IsStrict :=
  ⟨Gap.stripped_isStrict _, d.body.stripped_isStrict, Gap.stripped_isStrict _, rfl⟩

theorem stripped_of_isStrict {d : Document} (h : d.IsStrict) : d.stripped = d := by
  obtain ⟨lead, body, trail, tail⟩ := d
  obtain ⟨hlead, hbody, htrail, hclosed⟩ := h
  obtain rfl : tail = none := hclosed
  simp only [stripped, Gap.stripped_of_isStrict hlead, Doc.stripped_of_isStrict hbody,
    Gap.stripped_of_isStrict htrail]

end Document

end CodeAtlas.Json
