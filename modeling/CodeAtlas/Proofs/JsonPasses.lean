import CodeAtlas.Proofs.JsonBlanks

/-!
# Passes over JSON texts

A pass goes through a text once and decides about each character by the next mark behind it, whether
it stands in a string or not. The text of a document becomes that of another document: the tokens
stay as they are, apart from the strings, and so do nesting and numbers.
-/

namespace CodeAtlas.Json

variable {maxDigits : Option Nat}

open Reply (nextMark?)

/-! ## Documents without comments -/

mutual

/-- Nothing but blanks between the tokens, and at most a comma behind a last item. -/
def Doc.IsSpaced : Doc → Prop
  | .emptyArray gap => Gap.IsStrict gap
  | .array items => items.IsSpaced
  | .emptyObject gap => Gap.IsStrict gap
  | .object members => members.IsSpaced
  | _ => True

def Items.IsSpaced : Items → Prop
  | .last lead d trail comma =>
    Gap.IsStrict lead ∧ d.IsSpaced ∧ Gap.IsStrict trail ∧ Gap.IsStrict (comma.getD [])
  | .cons lead d trail rest =>
    Gap.IsStrict lead ∧ d.IsSpaced ∧ Gap.IsStrict trail ∧ rest.IsSpaced

def Members.IsSpaced : Members → Prop
  | .last lead _ before after d trail comma =>
    Gap.IsStrict lead ∧ Gap.IsStrict before ∧ Gap.IsStrict after ∧ d.IsSpaced
      ∧ Gap.IsStrict trail ∧ Gap.IsStrict (comma.getD [])
  | .cons lead _ before after d trail rest =>
    Gap.IsStrict lead ∧ Gap.IsStrict before ∧ Gap.IsStrict after ∧ d.IsSpaced
      ∧ Gap.IsStrict trail ∧ rest.IsSpaced

end

structure Document.IsSpaced (d : Document) : Prop where
  lead : Gap.IsStrict d.lead
  body : d.body.IsSpaced
  trail : Gap.IsStrict d.trail
  closed : d.last? = none

theorem Gap.isStrict_append {g h : Gap} (hg : Gap.IsStrict g) (hh : Gap.IsStrict h) :
    Gap.IsStrict (g ++ h) :=
  List.forall_mem_append.2 ⟨hg, hh⟩

mutual

theorem Doc.IsStrict.isSpaced {d : Doc} (h : d.IsStrict) : d.IsSpaced := by
  cases d with
  | array items => exact Items.IsStrict.isSpaced h
  | object members => exact Members.IsStrict.isSpaced h
  | _ => exact h

theorem Items.IsStrict.isSpaced {items : Items} (h : items.IsStrict) : items.IsSpaced := by
  cases items with
  | last lead d trail comma =>
    obtain ⟨hlead, hd, htrail, rfl⟩ := h
    exact ⟨hlead, hd.isSpaced, htrail, Gap.isStrict_nil⟩
  | cons lead d trail rest =>
    obtain ⟨hlead, hd, htrail, hrest⟩ := h
    exact ⟨hlead, hd.isSpaced, htrail, hrest.isSpaced⟩

theorem Members.IsStrict.isSpaced {members : Members} (h : members.IsStrict) :
    members.IsSpaced := by
  cases members with
  | last lead key before after d trail comma =>
    obtain ⟨hlead, hbefore, hafter, hd, htrail, rfl⟩ := h
    exact ⟨hlead, hbefore, hafter, hd.isSpaced, htrail, Gap.isStrict_nil⟩
  | cons lead key before after d trail rest =>
    obtain ⟨hlead, hbefore, hafter, hd, htrail, hrest⟩ := h
    exact ⟨hlead, hbefore, hafter, hd.isSpaced, htrail, hrest.isSpaced⟩

end

theorem Doc.opens (d : Doc) : ∃ c cs, d.text = c :: cs ∧ Opens c := by
  cases d with
  | null => exact ⟨_, _, rfl, by decide⟩
  | bool b => cases b <;> exact ⟨_, _, rfl, by decide⟩
  | number n =>
    obtain ⟨c, cs, hcs, -, hbracket⟩ := (Doc.number n).starts
    have hmem : c ∈ n.text := by
      rw [show n.text = c :: cs from hcs]
      exact List.mem_cons_self
    have hbetween := Numeral.between hmem
    refine ⟨c, cs, hcs, hbetween.1, hbetween.2, hbracket, ?_⟩
    rintro rfl
    exact absurd (Numeral.mem_text hmem) (by decide)
  | string q => exact ⟨_, _, rfl, by decide⟩
  | emptyArray gap => exact ⟨_, _, rfl, by decide⟩
  | array items => exact ⟨_, _, rfl, by decide⟩
  | emptyObject gap => exact ⟨_, _, rfl, by decide⟩
  | object members => exact ⟨_, _, rfl, by decide⟩

/-! ## A comma behind a last item is not read -/

theorem readItems_close (depth fuel : Nat) (rest : List Char) :
    readItems maxDigits depth fuel (']' :: rest) = .error .malformed := by
  cases fuel with
  | zero => rfl
  | succ fuel =>
    cases fuel with
    | zero => rfl
    | succ fuel =>
      have hvalue : readValue maxDigits depth (fuel + 1) (']' :: rest) = .error .malformed := by
        rw [readValue_other _ _ _ (by decide)]
        simp [keyword?, List.isPrefixOf, unsignedNumber, integerDigits, List.span, List.span.loop]
      rw [readItems_succ, hvalue]

theorem readMembers_close (depth fuel : Nat) (before : List (String × Json)) (rest : List Char) :
    readMembers maxDigits depth fuel before ('}' :: rest) = .error .malformed := by
  cases fuel <;> rfl

theorem Items.skipSpaces_spaced {items : Items} (h : items.IsSpaced) (rest : List Char) :
    ∃ c cs, skipSpaces (items.text ++ rest) = c :: cs ∧ c ≠ ']' := by
  cases items with
  | last lead d trail comma =>
    obtain ⟨c, cs, hcs, -, hc⟩ := d.starts
    rw [Items.text, List.append_assoc, List.append_assoc, Doc.skipSpaces_text h.1, hcs]
    exact ⟨c, _, rfl, hc⟩
  | cons lead d trail more =>
    obtain ⟨c, cs, hcs, -, hc⟩ := d.starts
    rw [Items.text, List.append_assoc, List.append_assoc, Doc.skipSpaces_text h.1, hcs]
    exact ⟨c, _, rfl, hc⟩

theorem readItems_of_readValue {items : Items} (h : items.IsSpaced) {depth fuel : Nat}
    {rest : List Char} {r : Json × List Char}
    (hread : readValue maxDigits depth (fuel + 1) ((Doc.array items).text ++ rest) = .ok r) :
    ∃ r, readItems maxDigits (depth - 1) fuel (skipSpaces (items.text ++ ']' :: rest)) = .ok r := by
  obtain ⟨c, cs, hcs, hc⟩ := Items.skipSpaces_spaced h (']' :: rest)
  rw [Doc.text, List.cons_append, List.append_assoc, List.singleton_append, readValue_bracket, hcs]
    at hread
  split at hread
  · cases hread
  · split at hread
    · next heq => exact absurd (List.cons.inj heq).1 hc
    · rw [hcs]
      exact exists_ok_of_map hread

theorem Members.skipSpaces_spaced {members : Members} (h : members.IsSpaced) (rest : List Char) :
    ∃ cs, skipSpaces (members.text ++ rest) = '"' :: cs := by
  cases members <;>
    simp [Members.text, skipSpaces_gap h.1, Quote.text, show isSpace '"' = false from rfl]

theorem readMembers_of_readValue {members : Members} (h : members.IsSpaced) {depth fuel : Nat}
    {rest : List Char} {r : Json × List Char}
    (hread : readValue maxDigits depth (fuel + 1) ((Doc.object members).text ++ rest) = .ok r) :
    ∃ r, readMembers maxDigits (depth - 1) fuel [] (skipSpaces (members.text ++ '}' :: rest))
      = .ok r := by
  obtain ⟨cs, hcs⟩ := Members.skipSpaces_spaced h ('}' :: rest)
  rw [Doc.text, List.cons_append, List.append_assoc, List.singleton_append, readValue_brace, hcs]
    at hread
  split at hread
  · cases hread
  · rw [hcs]
    exact exists_ok_of_map hread

theorem Doc.readValue_of_ok {d : Doc} (hstrict : d.IsStrict) {depth fuel : Nat} {rest : List Char}
    {r : Json × List Char} (hlength : 2 * d.text.length < fuel) (hstops : Stops goesOn rest)
    (h : readValue maxDigits depth fuel (d.text ++ rest) = .ok r) :
    readValue maxDigits depth fuel (d.text ++ rest) = .ok (d.value, rest) := by
  have hfits := Doc.fits_of_readValue hstrict hlength hstops h
  exact Doc.readValue_text hstrict hfits.1 hfits.2 hlength hstops

mutual

theorem Doc.isStrict_of_readValue {d : Doc} (hspaced : d.IsSpaced) {depth fuel : Nat}
    {rest : List Char} {r : Json × List Char} (hfuel : 2 * d.text.length < fuel)
    (h : readValue maxDigits depth fuel (d.text ++ rest) = .ok r) : d.IsStrict := by
  obtain ⟨fuel, rfl⟩ : ∃ n, fuel = n + 1 := ⟨fuel - 1, by omega⟩
  cases d with
  | array items =>
    simp only [Doc.text, List.length_cons, List.length_append] at hfuel
    obtain ⟨_, hread⟩ := readItems_of_readValue hspaced h
    exact Items.isStrict_of_readItems hspaced (by omega) hread
  | object members =>
    simp only [Doc.text, List.length_cons, List.length_append] at hfuel
    obtain ⟨_, hread⟩ := readMembers_of_readValue hspaced h
    exact Members.isStrict_of_readMembers hspaced (by omega) hread
  | _ => exact hspaced

theorem Items.isStrict_of_readItems {items : Items} (hspaced : items.IsSpaced) {depth fuel : Nat}
    {rest : List Char} {r : List Json × List Char} (hfuel : 2 * items.text.length + 1 < fuel)
    (h : readItems maxDigits depth fuel (skipSpaces (items.text ++ ']' :: rest)) = .ok r) :
    items.IsStrict := by
  obtain ⟨fuel, rfl⟩ : ∃ n, fuel = n + 1 := ⟨fuel - 1, by omega⟩
  obtain ⟨_, hread⟩ := readValue_of_readItems h
  cases items with
  | last lead d trail comma =>
    obtain ⟨hlead, hd, htrail, hcomma⟩ := hspaced
    simp only [Items.text, List.length_append] at hfuel
    simp only [Items.text, List.append_assoc, Doc.skipSpaces_text hlead] at h hread
    have hstrict := Doc.isStrict_of_readValue hd (by omega) hread
    refine ⟨hlead, hstrict, htrail, ?_⟩
    cases comma with
    | none => rfl
    | some gap =>
      -- the reader goes on behind the comma, and stands in front of the bracket
      have hlength : 2 * d.text.length < fuel := by omega
      have hstops : Stops goesOn (Gap.text trail ++ ',' :: (Gap.text gap ++ ']' :: rest)) :=
        stops_gap htrail (by simp [goesOn])
      have hgap : Gap.IsStrict gap := hcomma
      simp only [commaText, List.cons_append] at h hread
      rw [readItems_cons htrail (Doc.readValue_of_ok hstrict hlength hstops hread),
        skipSpaces_gap hgap, skipSpaces_cons rfl, readItems_close] at h
      cases h
  | cons lead d trail more =>
    obtain ⟨hlead, hd, htrail, hmore⟩ := hspaced
    simp only [Items.text, List.length_append, List.length_cons] at hfuel
    simp only [Items.text, List.append_assoc, List.cons_append, Doc.skipSpaces_text hlead]
      at h hread
    have hlength : 2 * d.text.length < fuel := by omega
    have hstops : Stops goesOn (Gap.text trail ++ ',' :: (more.text ++ ']' :: rest)) :=
      stops_gap htrail (by simp [goesOn])
    have hstrict := Doc.isStrict_of_readValue hd hlength hread
    rw [readItems_cons htrail (Doc.readValue_of_ok hstrict hlength hstops hread)] at h
    obtain ⟨_, hitems⟩ := exists_ok_of_map h
    exact ⟨hlead, hstrict, htrail, Items.isStrict_of_readItems hmore (by omega) hitems⟩

theorem Members.isStrict_of_readMembers {members : Members} (hspaced : members.IsSpaced)
    {depth fuel : Nat} {before : List (String × Json)} {rest : List Char}
    {r : List (String × Json) × List Char} (hfuel : 2 * members.text.length + 1 < fuel)
    (h : readMembers maxDigits depth fuel before (skipSpaces (members.text ++ '}' :: rest))
      = .ok r) :
    members.IsStrict := by
  obtain ⟨fuel, rfl⟩ : ∃ n, fuel = n + 1 := ⟨fuel - 1, by omega⟩
  cases members with
  | last lead key pre post d trail comma =>
    obtain ⟨hlead, hpre, hpost, hd, htrail, hcomma⟩ := hspaced
    simp only [Members.text, List.length_append, List.length_cons] at hfuel
    simp only [Members.text, List.append_assoc, List.cons_append, skipSpaces_quote hlead] at h
    obtain ⟨_, hread⟩ := readValue_of_readMembers hpre hpost h
    have hstrict := Doc.isStrict_of_readValue hd (by omega) hread
    refine ⟨hlead, hpre, hpost, hstrict, htrail, ?_⟩
    cases comma with
    | none => rfl
    | some gap =>
      have hlength : 2 * d.text.length < fuel := by omega
      have hstops : Stops goesOn (Gap.text trail ++ ',' :: (Gap.text gap ++ '}' :: rest)) :=
        stops_gap htrail (by simp [goesOn])
      have hgap : Gap.IsStrict gap := hcomma
      simp only [commaText, List.cons_append] at h hread
      rw [readMembers_cons hpre hpost htrail (Doc.readValue_of_ok hstrict hlength hstops hread),
        skipSpaces_gap hgap, skipSpaces_cons rfl, readMembers_close] at h
      cases h
  | cons lead key pre post d trail more =>
    obtain ⟨hlead, hpre, hpost, hd, htrail, hmore⟩ := hspaced
    simp only [Members.text, List.length_append, List.length_cons] at hfuel
    simp only [Members.text, List.append_assoc, List.cons_append, skipSpaces_quote hlead] at h
    obtain ⟨_, hread⟩ := readValue_of_readMembers hpre hpost h
    have hlength : 2 * d.text.length < fuel := by omega
    have hstops : Stops goesOn (Gap.text trail ++ ',' :: (more.text ++ '}' :: rest)) :=
      stops_gap htrail (by simp [goesOn])
    have hstrict := Doc.isStrict_of_readValue hd hlength hread
    rw [readMembers_cons hpre hpost htrail (Doc.readValue_of_ok hstrict hlength hstops hread)] at h
    exact ⟨hlead, hpre, hpost, hstrict, htrail,
      Members.isStrict_of_readMembers hmore (by omega) h⟩

end

/-! ## Passes -/

def Inert (c : Char) : Prop :=
  0x20 < c.toNat ∧ c.toNat < 0x7f ∧ c ≠ ',' ∧ c ≠ ']' ∧ c ≠ '}'

instance (c : Char) : Decidable (Inert c) :=
  inferInstanceAs (Decidable (_ ∧ _))

abbrev InString (c : Char) : Prop :=
  c ≠ '"' ∧ c ≠ '\\' ∧ 0x20 ≤ c.toNat

def IsClosing (next : Option Char) : Prop :=
  next = some ']' ∨ next = some '}'

def IsOpening (next : Option Char) : Prop :=
  next = some '[' ∨ next = some '{'

instance (next : Option Char) : Decidable (IsClosing next) :=
  inferInstanceAs (Decidable (_ ∨ _))

instance (next : Option Char) : Decidable (IsOpening next) :=
  inferInstanceAs (Decidable (_ ∨ _))

/-- What is written in place of each character, depending on the next mark behind it. -/
structure Pass where
  write : Char → Option Char → List Char
  blank : Char → Char
  /-- Whether a comma in front of a closing bracket stays. -/
  keepsCommas : Bool
  isSpace_blank : ∀ c, isSpace c = true → isSpace (blank c) = true
  write_space : ∀ c next, isSpace c = true → write c next = [blank c]
  write_inert : ∀ c next, Inert c → write c next = [c]
  write_comma : ∀ next, ¬ IsClosing next → write ',' next = [',']
  write_lastComma : ∀ next, IsClosing next → write ',' next = if keepsCommas then [','] else []
  write_close : ∀ c next, c = ']' ∨ c = '}' → ¬ IsOpening next → write c next = [c]
  write_inString : ∀ c next, InString c → ∀ d ∈ write c next, InString d
  isClosing_of_nil : ∀ c next, write c next = [] → IsClosing next

namespace Pass

variable (p : Pass)

def run : List Char → List Char
  | [] => []
  | c :: rest => p.write c (nextMark? rest) ++ run rest

def filler : Filler → Filler
  | .space c h => .space (p.blank c) (p.isSpace_blank c h)
  | f => f

def gap (g : Gap) : Gap :=
  g.map p.filler

/-- The characters of a string, each with the next mark of the string or the quote that ends it. -/
def pieces : List Piece → List Piece
  | [] => []
  | .plain c h :: rest =>
    (p.write c (nextMark? (rest.flatMap Piece.text ++ ['"']))).pmap Piece.plain
      (p.write_inString c _ h) ++ pieces rest
  | q :: rest => q :: pieces rest

end Pass

/-! ## The next mark -/

theorem isBlank_of_between {c : Char} (h : 0x20 < c.toNat ∧ c.toNat < 0x7f) :
    Text.isBlank c = false := by
  simp [Text.isBlank, Text.inRanges, Text.blankRanges]
  omega

theorem nextMark?_cons {c : Char} (h : Text.isBlank c = false) (rest : List Char) :
    nextMark? (c :: rest) = some c := by
  unfold nextMark?
  rw [List.dropWhile_cons_of_neg (by simp [h])]
  rfl

theorem nextMark?_gap {g : Gap} (h : Gap.IsStrict g) (rest : List Char) :
    nextMark? (Gap.text g ++ rest) = nextMark? rest := by
  unfold nextMark?
  rw [List.dropWhile_append_of_pos]
  intro c hc
  exact isBlank_of_isSpace (Gap.isSpace_of_isStrict h hc)

/-- The quote that ends a string is a mark, so none behind it counts inside of the string. -/
theorem nextMark?_quotation (cs rest : List Char) :
    nextMark? (cs ++ '"' :: rest) = nextMark? (cs ++ ['"']) := by
  induction cs with
  | nil => rfl
  | cons c cs ih =>
    unfold nextMark? at ih ⊢
    rw [List.cons_append, List.cons_append, List.dropWhile_cons, List.dropWhile_cons]
    split
    · exact ih
    · rfl

theorem Items.not_isClosing {items : Items} (h : items.IsSpaced) (rest : List Char) :
    ¬ IsClosing (nextMark? (items.text ++ rest)) := by
  have hfirst : ∃ lead d more, Gap.IsStrict lead ∧ items.text = Gap.text lead ++ (Doc.text d ++ more) := by
    cases items with
    | last lead d trail comma => exact ⟨lead, d, _, h.1, rfl⟩
    | cons lead d trail rest => exact ⟨lead, d, _, h.1, rfl⟩
  obtain ⟨lead, d, more, hlead, htext⟩ := hfirst
  obtain ⟨c, cs, hcs, hlow, hhigh, hbracket, hbrace⟩ := d.opens
  rw [htext, List.append_assoc, nextMark?_gap hlead, hcs, List.append_assoc, List.cons_append,
    nextMark?_cons (isBlank_of_between ⟨hlow, hhigh⟩)]
  unfold IsClosing
  simp [hbracket, hbrace]

theorem Members.not_isClosing {members : Members} (h : members.IsSpaced) (rest : List Char) :
    ¬ IsClosing (nextMark? (members.text ++ rest)) := by
  have hmark : nextMark? (members.text ++ rest) = some '"' := by
    cases members <;>
      rw [Members.text, List.append_assoc, nextMark?_gap h.1, Quote.text, List.append_assoc,
        List.cons_append, nextMark?_cons (by decide)]
  rw [hmark]
  decide

/-! ## Strings and numbers -/

theorem inert_of_hexValue? {c : Char} (h : hexValue? c ≠ none) : Inert c := by
  obtain ⟨hlow, hhigh⟩ := hexValue?_between h
  refine ⟨hlow, hhigh, ?_, ?_, ?_⟩ <;>
  · rintro rfl
    exact h rfl

theorem CodeUnit.inert {u : CodeUnit} {c : Char} (h : c ∈ u.text) : Inert c := by
  rcases CodeUnit.mem_text h with rfl | rfl | hhex
  · decide
  · decide
  · exact inert_of_hexValue? hhex

def Piece.IsEscaped : Piece → Prop
  | plain _ _ => False
  | _ => True

theorem Piece.inert {q : Piece} (hq : q.IsEscaped) {c : Char} (h : c ∈ q.text) : Inert c := by
  cases q with
  | plain d hd => cases hq
  | escape e d hd =>
    have hall : ∀ x ∈ escapes, Inert x.1 := by decide
    simp only [Piece.text, List.mem_cons, List.not_mem_nil, or_false] at h
    rcases h with rfl | rfl
    · decide
    · exact hall _ hd
  | point u hu => exact CodeUnit.inert h
  | pair high low hhigh hlow =>
    rcases List.mem_append.1 h with h | h
    · exact CodeUnit.inert h
    · exact CodeUnit.inert h

theorem Numeral.inert {n : Numeral} {c : Char} (h : c ∈ n.text) : Inert c := by
  obtain ⟨hlow, hhigh⟩ := Numeral.between h
  have hmem := Numeral.mem_text h
  refine ⟨hlow, hhigh, ?_, ?_, ?_⟩ <;>
  · rintro rfl
    exact absurd hmem (by decide)

namespace Pass

variable (p : Pass)

theorem run_inert {cs : List Char} (h : ∀ c ∈ cs, Inert c) (rest : List Char) :
    p.run (cs ++ rest) = cs ++ p.run rest := by
  induction cs with
  | nil => rfl
  | cons c cs ih =>
    rw [List.cons_append, run, p.write_inert c _ (h c (by simp)), ih fun c hc => h c (by simp [hc])]
    rfl

theorem pieces_plain (c : Char) (h : InString c) (rest : List Piece) :
    p.pieces (.plain c h :: rest) =
      (p.write c (nextMark? (rest.flatMap Piece.text ++ ['"']))).pmap Piece.plain
        (p.write_inString c _ h) ++ p.pieces rest :=
  rfl

theorem pieces_escaped {q : Piece} (h : q.IsEscaped) (rest : List Piece) :
    p.pieces (q :: rest) = q :: p.pieces rest := by
  cases q with
  | plain c hc => cases h
  | _ => rfl

theorem flatMap_text_pmap (cs : List Char) (h : ∀ c ∈ cs, InString c) :
    (cs.pmap Piece.plain h).flatMap Piece.text = cs := by
  induction cs with
  | nil => rfl
  | cons c cs ih =>
    rw [List.pmap_cons, List.flatMap_cons, ih]
    rfl

theorem run_pieces (ps : List Piece) (rest : List Char) :
    p.run (ps.flatMap Piece.text ++ '"' :: rest) =
      (p.pieces ps).flatMap Piece.text ++ '"' :: p.run rest := by
  induction ps with
  | nil =>
    rw [List.flatMap_nil, List.nil_append, run, p.write_inert '"' _ (by decide)]
    rfl
  | cons q ps ih =>
    by_cases hq : q.IsEscaped
    · rw [List.flatMap_cons, List.append_assoc, p.run_inert fun c => Piece.inert hq, ih,
        p.pieces_escaped hq, List.flatMap_cons, List.append_assoc]
    · cases q with
      | plain c hc =>
        have htext : (Piece.plain c hc :: ps).flatMap Piece.text = c :: ps.flatMap Piece.text := rfl
        rw [htext, List.cons_append, run, ih, nextMark?_quotation, pieces_plain, List.flatMap_append,
          flatMap_text_pmap, List.append_assoc]
      | _ => exact absurd trivial hq

def quote (q : Quote) : Quote :=
  ⟨p.pieces q.pieces⟩

theorem run_quote (q : Quote) (rest : List Char) :
    p.run (q.text ++ rest) = (p.quote q).text ++ p.run rest := by
  have hpieces := p.run_pieces q.pieces rest
  rw [Quote.text, List.cons_append, List.append_assoc, List.singleton_append, run,
    p.write_inert '"' _ (by decide), hpieces]
  simp [Quote.text, quote]

/-! ## Between tokens -/

theorem gap_append (g h : Gap) : p.gap (g ++ h) = p.gap g ++ p.gap h :=
  List.map_append

theorem gap_isStrict {g : Gap} (h : Gap.IsStrict g) : Gap.IsStrict (p.gap g) := by
  intro f hf
  obtain ⟨f', hf', rfl⟩ := List.mem_map.1 hf
  have hspace := h f' hf'
  cases f' with
  | space c hc => trivial
  | line body hb => cases hspace
  | block body hb => cases hspace

theorem run_gap {g : Gap} (h : Gap.IsStrict g) (rest : List Char) :
    p.run (Gap.text g ++ rest) = Gap.text (p.gap g) ++ p.run rest := by
  induction g with
  | nil => rfl
  | cons f g ih =>
    have hf := h f (by simp)
    have hg := ih fun f hf => h f (by simp [hf])
    cases f with
    | space c hc =>
      have htext : Gap.text (Filler.space c hc :: g) = c :: Gap.text g := rfl
      rw [htext, List.cons_append, run, p.write_space c _ hc, hg]
      rfl
    | line body hb => cases hf
    | block body hb => cases hf

def comma (comma : Option Gap) : Option Gap :=
  if p.keepsCommas then comma.map p.gap else none

def trail (trail : Gap) (comma : Option Gap) : Gap :=
  if p.keepsCommas then p.gap trail else p.gap (trail ++ comma.getD [])

theorem run_trail {trail : Gap} {comma : Option Gap} {close : Char} (htrail : Gap.IsStrict trail)
    (hcomma : Gap.IsStrict (comma.getD [])) (hclose : close = ']' ∨ close = '}')
    (rest : List Char) :
    p.run (Gap.text trail ++ (commaText comma ++ close :: rest)) =
      Gap.text (p.trail trail comma) ++ (commaText (p.comma comma) ++ p.run (close :: rest)) := by
  rw [p.run_gap htrail]
  cases comma with
  | none => simp [Pass.trail, Pass.comma, commaText]
  | some gap =>
    have hgap : Gap.IsStrict gap := hcomma
    have hnext : IsClosing (nextMark? (Gap.text gap ++ close :: rest)) := by
      rw [nextMark?_gap hgap]
      rcases hclose with rfl | rfl
      · exact .inl (nextMark?_cons (by decide) rest)
      · exact .inr (nextMark?_cons (by decide) rest)
    rw [commaText, List.cons_append, run, p.write_lastComma _ hnext, p.run_gap hgap]
    cases hkeeps : p.keepsCommas <;>
      simp [Pass.trail, Pass.comma, commaText, hkeeps, gap_append]

/-! ## Documents -/

mutual

def doc : Doc → Doc
  | .string q => .string (p.quote q)
  | .emptyArray gap => .emptyArray (p.gap gap)
  | .array vs => .array (items vs)
  | .emptyObject gap => .emptyObject (p.gap gap)
  | .object ms => .object (members ms)
  | d => d

def items : Items → Items
  | .last lead d trail comma => .last (p.gap lead) (doc d) (p.trail trail comma) (p.comma comma)
  | .cons lead d trail rest => .cons (p.gap lead) (doc d) (p.gap trail) (items rest)

def members : Members → Members
  | .last lead key before after d trail comma =>
    .last (p.gap lead) (p.quote key) (p.gap before) (p.gap after) (doc d) (p.trail trail comma)
      (p.comma comma)
  | .cons lead key before after d trail rest =>
    .cons (p.gap lead) (p.quote key) (p.gap before) (p.gap after) (doc d) (p.gap trail)
      (members rest)

end

theorem run_mark {c : Char} (h : Inert c) (rest : List Char) : p.run (c :: rest) = c :: p.run rest := by
  rw [run, p.write_inert c _ h]
  rfl

theorem run_close {close : Char} (hclose : close = ']' ∨ close = '}') {rest : List Char}
    (h : ¬ IsOpening (nextMark? rest)) : p.run (close :: rest) = close :: p.run rest := by
  rw [run, p.write_close close _ hclose h]
  rfl

theorem run_comma {rest : List Char} (h : ¬ IsClosing (nextMark? rest)) :
    p.run (',' :: rest) = ',' :: p.run rest := by
  rw [run, p.write_comma _ h]
  rfl

/-- Behind an item stands a comma or a closing bracket. -/
theorem not_isOpening_trail {trail : Gap} {comma : Option Gap} {close : Char}
    (htrail : Gap.IsStrict trail) (hclose : close = ']' ∨ close = '}') (rest : List Char) :
    ¬ IsOpening (nextMark? (Gap.text trail ++ (commaText comma ++ close :: rest))) := by
  rw [nextMark?_gap htrail]
  cases comma with
  | none =>
    rw [commaText, List.nil_append]
    rcases hclose with rfl | rfl
    · rw [nextMark?_cons (by decide)]
      decide
    · rw [nextMark?_cons (by decide)]
      decide
  | some gap =>
    rw [commaText, List.cons_append, nextMark?_cons (by decide)]
    decide

theorem not_isOpening_comma {trail : Gap} (htrail : Gap.IsStrict trail) (rest : List Char) :
    ¬ IsOpening (nextMark? (Gap.text trail ++ ',' :: rest)) := by
  rw [nextMark?_gap htrail, nextMark?_cons (by decide)]
  decide

mutual

theorem run_doc {d : Doc} (h : d.IsSpaced) {rest : List Char}
    (hrest : ¬ IsOpening (nextMark? rest)) :
    p.run (d.text ++ rest) = (p.doc d).text ++ p.run rest := by
  cases d with
  | null => exact p.run_inert (by simp [Doc.text, Inert]) rest
  | bool b => cases b <;> exact p.run_inert (by simp [Doc.text, Inert]) rest
  | number n => exact p.run_inert (fun c => Numeral.inert) rest
  | string q => exact p.run_quote q rest
  | emptyArray gap =>
    rw [Doc.text, List.cons_append, List.append_assoc, List.singleton_append,
      p.run_mark (by decide), p.run_gap h, p.run_close (.inl rfl) hrest]
    simp [doc, Doc.text]
  | emptyObject gap =>
    rw [Doc.text, List.cons_append, List.append_assoc, List.singleton_append,
      p.run_mark (by decide), p.run_gap h, p.run_close (.inr rfl) hrest]
    simp [doc, Doc.text]
  | array vs =>
    rw [Doc.text, List.cons_append, List.append_assoc, List.singleton_append,
      p.run_mark (by decide), run_items h, p.run_close (.inl rfl) hrest]
    simp [doc, Doc.text]
  | object ms =>
    rw [Doc.text, List.cons_append, List.append_assoc, List.singleton_append,
      p.run_mark (by decide), run_members h, p.run_close (.inr rfl) hrest]
    simp [doc, Doc.text]

theorem run_items {vs : Items} (h : vs.IsSpaced) (rest : List Char) :
    p.run (vs.text ++ ']' :: rest) = (p.items vs).text ++ p.run (']' :: rest) := by
  cases vs with
  | last lead d trail comma =>
    obtain ⟨hlead, hd, htrail, hcomma⟩ := h
    simp only [Items.text, List.append_assoc, p.run_gap hlead]
    rw [run_doc hd (not_isOpening_trail htrail (.inl rfl) rest),
      p.run_trail htrail hcomma (.inl rfl)]
    simp [items, Items.text]
  | cons lead d trail more =>
    obtain ⟨hlead, hd, htrail, hmore⟩ := h
    simp only [Items.text, List.append_assoc, List.cons_append, p.run_gap hlead]
    rw [run_doc hd (not_isOpening_comma htrail _), p.run_gap htrail,
      p.run_comma (Items.not_isClosing hmore _), run_items hmore]
    simp [items, Items.text]

theorem run_members {ms : Members} (h : ms.IsSpaced) (rest : List Char) :
    p.run (ms.text ++ '}' :: rest) = (p.members ms).text ++ p.run ('}' :: rest) := by
  cases ms with
  | last lead key before after d trail comma =>
    obtain ⟨hlead, hbefore, hafter, hd, htrail, hcomma⟩ := h
    simp only [Members.text, List.append_assoc, List.cons_append, p.run_gap hlead, p.run_quote,
      p.run_gap hbefore, p.run_mark (show Inert ':' by decide), p.run_gap hafter]
    rw [run_doc hd (not_isOpening_trail htrail (.inr rfl) rest),
      p.run_trail htrail hcomma (.inr rfl)]
    simp [members, Members.text]
  | cons lead key before after d trail more =>
    obtain ⟨hlead, hbefore, hafter, hd, htrail, hmore⟩ := h
    simp only [Members.text, List.append_assoc, List.cons_append, p.run_gap hlead, p.run_quote,
      p.run_gap hbefore, p.run_mark (show Inert ':' by decide), p.run_gap hafter]
    rw [run_doc hd (not_isOpening_comma htrail _), p.run_gap htrail,
      p.run_comma (Members.not_isClosing hmore _), run_members hmore]
    simp [members, Members.text]

end

/-! ## What a pass leaves as it is -/

theorem comma_isStrict {comma : Option Gap} (h : Gap.IsStrict (comma.getD [])) :
    Gap.IsStrict ((p.comma comma).getD []) := by
  unfold Pass.comma
  split
  · cases comma with
    | none => exact Gap.isStrict_nil
    | some gap => exact p.gap_isStrict h
  · exact Gap.isStrict_nil

theorem trail_isStrict {trail : Gap} {comma : Option Gap} (htrail : Gap.IsStrict trail)
    (hcomma : Gap.IsStrict (comma.getD [])) : Gap.IsStrict (p.trail trail comma) := by
  unfold Pass.trail
  split
  · exact p.gap_isStrict htrail
  · exact p.gap_isStrict (Gap.isStrict_append htrail hcomma)

theorem comma_eq_none (comma : Option Gap) :
    p.comma comma = none ↔ comma = none ∨ p.keepsCommas = false := by
  unfold Pass.comma
  cases p.keepsCommas <;> simp

theorem trail_append_comma (trail : Gap) (comma : Option Gap) :
    p.trail trail comma ++ (p.comma comma).getD [] = p.gap (trail ++ comma.getD []) := by
  unfold Pass.trail Pass.comma
  cases p.keepsCommas with
  | false => simp
  | true => cases comma <;> simp [gap]

theorem trail_none (trail : Gap) : p.trail trail none = p.gap trail := by
  simp [Pass.trail]

mutual

theorem doc_isSpaced {d : Doc} (h : d.IsSpaced) : (p.doc d).IsSpaced := by
  cases d with
  | emptyArray gap => exact p.gap_isStrict h
  | emptyObject gap => exact p.gap_isStrict h
  | array vs => exact items_isSpaced h
  | object ms => exact members_isSpaced h
  | _ => trivial

theorem items_isSpaced {vs : Items} (h : vs.IsSpaced) : (p.items vs).IsSpaced := by
  cases vs with
  | last lead d trail comma =>
    obtain ⟨hlead, hd, htrail, hcomma⟩ := h
    exact ⟨p.gap_isStrict hlead, doc_isSpaced hd, p.trail_isStrict htrail hcomma,
      p.comma_isStrict hcomma⟩
  | cons lead d trail rest =>
    obtain ⟨hlead, hd, htrail, hrest⟩ := h
    exact ⟨p.gap_isStrict hlead, doc_isSpaced hd, p.gap_isStrict htrail, items_isSpaced hrest⟩

theorem members_isSpaced {ms : Members} (h : ms.IsSpaced) : (p.members ms).IsSpaced := by
  cases ms with
  | last lead key before after d trail comma =>
    obtain ⟨hlead, hbefore, hafter, hd, htrail, hcomma⟩ := h
    exact ⟨p.gap_isStrict hlead, p.gap_isStrict hbefore, p.gap_isStrict hafter, doc_isSpaced hd,
      p.trail_isStrict htrail hcomma, p.comma_isStrict hcomma⟩
  | cons lead key before after d trail rest =>
    obtain ⟨hlead, hbefore, hafter, hd, htrail, hrest⟩ := h
    exact ⟨p.gap_isStrict hlead, p.gap_isStrict hbefore, p.gap_isStrict hafter, doc_isSpaced hd,
      p.gap_isStrict htrail, members_isSpaced hrest⟩

end

mutual

theorem doc_isStrict_iff {d : Doc} (h : d.IsSpaced) :
    (p.doc d).IsStrict ↔ d.IsStrict ∨ p.keepsCommas = false := by
  cases d with
  | emptyArray gap => exact iff_of_true (p.gap_isStrict h) (.inl h)
  | emptyObject gap => exact iff_of_true (p.gap_isStrict h) (.inl h)
  | array vs => exact items_isStrict_iff h
  | object ms => exact members_isStrict_iff h
  | _ => exact iff_of_true trivial (.inl trivial)

theorem items_isStrict_iff {vs : Items} (h : vs.IsSpaced) :
    (p.items vs).IsStrict ↔ vs.IsStrict ∨ p.keepsCommas = false := by
  cases vs with
  | last lead d trail comma =>
    obtain ⟨hlead, hd, htrail, hcomma⟩ := h
    simp only [items, Items.IsStrict, p.gap_isStrict hlead, p.trail_isStrict htrail hcomma, hlead,
      htrail, doc_isStrict_iff hd, comma_eq_none, true_and]
    tauto
  | cons lead d trail rest =>
    obtain ⟨hlead, hd, htrail, hrest⟩ := h
    simp only [items, Items.IsStrict, p.gap_isStrict hlead, p.gap_isStrict htrail, hlead, htrail,
      doc_isStrict_iff hd, items_isStrict_iff hrest, true_and]
    tauto

theorem members_isStrict_iff {ms : Members} (h : ms.IsSpaced) :
    (p.members ms).IsStrict ↔ ms.IsStrict ∨ p.keepsCommas = false := by
  cases ms with
  | last lead key before after d trail comma =>
    obtain ⟨hlead, hbefore, hafter, hd, htrail, hcomma⟩ := h
    simp only [members, Members.IsStrict, p.gap_isStrict hlead, p.gap_isStrict hbefore,
      p.gap_isStrict hafter, p.trail_isStrict htrail hcomma, hlead, hbefore, hafter, htrail,
      doc_isStrict_iff hd, comma_eq_none, true_and]
    tauto
  | cons lead key before after d trail rest =>
    obtain ⟨hlead, hbefore, hafter, hd, htrail, hrest⟩ := h
    simp only [members, Members.IsStrict, p.gap_isStrict hlead, p.gap_isStrict hbefore,
      p.gap_isStrict hafter, p.gap_isStrict htrail, hlead, hbefore, hafter, htrail,
      doc_isStrict_iff hd, members_isStrict_iff hrest, true_and]
    tauto

end

mutual

theorem doc_limits (d : Doc) : (p.doc d).depth = d.depth ∧ (p.doc d).width = d.width := by
  cases d with
  | array vs =>
    obtain ⟨hdepth, hwidth⟩ := items_limits vs
    exact ⟨congrArg (· + 1) hdepth, hwidth⟩
  | object ms =>
    obtain ⟨hdepth, hwidth⟩ := members_limits ms
    exact ⟨congrArg (· + 1) hdepth, hwidth⟩
  | _ => exact ⟨rfl, rfl⟩

theorem items_limits (vs : Items) : (p.items vs).depth = vs.depth ∧ (p.items vs).width = vs.width := by
  cases vs with
  | last lead d trail comma => exact doc_limits d
  | cons lead d trail rest =>
    obtain ⟨hdepth, hwidth⟩ := doc_limits d
    obtain ⟨hdepths, hwidths⟩ := items_limits rest
    simp only [items, Items.depth, Items.width, hdepth, hwidth, hdepths, hwidths, and_self]

theorem members_limits (ms : Members) :
    (p.members ms).depth = ms.depth ∧ (p.members ms).width = ms.width := by
  cases ms with
  | last lead key before after d trail comma => exact doc_limits d
  | cons lead key before after d trail rest =>
    obtain ⟨hdepth, hwidth⟩ := doc_limits d
    obtain ⟨hdepths, hwidths⟩ := members_limits rest
    simp only [members, Members.depth, Members.width, hdepth, hwidth, hdepths, hwidths, and_self]

end

theorem stripped_gap {g : Gap} (h : Gap.IsStrict g) :
    Gap.stripped (p.gap g) = p.gap (Gap.stripped g) := by
  rw [Gap.stripped_of_isStrict (p.gap_isStrict h), Gap.stripped_of_isStrict h]

theorem stripped_trail {trail : Gap} {comma : Option Gap} (htrail : Gap.IsStrict trail)
    (hcomma : Gap.IsStrict (comma.getD [])) :
    Gap.stripped (p.trail trail comma ++ (p.comma comma).getD []) =
      p.trail (Gap.stripped (trail ++ comma.getD [])) none := by
  rw [trail_append_comma, trail_none, p.stripped_gap (Gap.isStrict_append htrail hcomma)]

mutual

theorem stripped_doc {d : Doc} (h : d.IsSpaced) : (p.doc d).stripped = p.doc d.stripped := by
  cases d with
  | emptyArray gap => exact congrArg Doc.emptyArray (p.stripped_gap h)
  | emptyObject gap => exact congrArg Doc.emptyObject (p.stripped_gap h)
  | array vs => exact congrArg Doc.array (stripped_items h)
  | object ms => exact congrArg Doc.object (stripped_members h)
  | _ => rfl

theorem stripped_items {vs : Items} (h : vs.IsSpaced) :
    (p.items vs).stripped = p.items vs.stripped := by
  cases vs with
  | last lead d trail comma =>
    obtain ⟨hlead, hd, htrail, hcomma⟩ := h
    have hnone : p.comma none = none := (p.comma_eq_none none).2 (.inl rfl)
    simp only [items, Items.stripped, p.stripped_gap hlead, stripped_doc hd,
      p.stripped_trail htrail hcomma, hnone]
  | cons lead d trail rest =>
    obtain ⟨hlead, hd, htrail, hrest⟩ := h
    simp only [items, Items.stripped, p.stripped_gap hlead, stripped_doc hd, p.stripped_gap htrail,
      stripped_items hrest]

theorem stripped_members {ms : Members} (h : ms.IsSpaced) :
    (p.members ms).stripped = p.members ms.stripped := by
  cases ms with
  | last lead key before after d trail comma =>
    obtain ⟨hlead, hbefore, hafter, hd, htrail, hcomma⟩ := h
    have hnone : p.comma none = none := (p.comma_eq_none none).2 (.inl rfl)
    simp only [members, Members.stripped, p.stripped_gap hlead, p.stripped_gap hbefore,
      p.stripped_gap hafter, stripped_doc hd, p.stripped_trail htrail hcomma, hnone]
  | cons lead key before after d trail rest =>
    obtain ⟨hlead, hbefore, hafter, hd, htrail, hrest⟩ := h
    simp only [members, Members.stripped, p.stripped_gap hlead, p.stripped_gap hbefore,
      p.stripped_gap hafter, stripped_doc hd, p.stripped_gap htrail, stripped_members hrest]

end

end Pass

end CodeAtlas.Json
