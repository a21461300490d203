import CodeAtlas.Json.Comments
import CodeAtlas.Proofs.JsonReading
import Mathlib.Tactic.Common

/-!
# Removing comments

The scanner that removes comments and last commas gives the text of the document without them.
-/

namespace CodeAtlas.Json

/-! ## The scanner, step by step -/

def isCopied (c : Char) : Bool :=
  c != '"' && c != '/' && c != ']' && c != '}'

section
variable (out rest : List Char)

theorem stripFrom_char {c : Char} (h : isCopied c = true) :
    stripFrom out .code (c :: rest) = stripFrom (c :: out) .code rest := by
  simp only [isCopied, Bool.and_eq_true, bne_iff_ne, ne_eq] at h
  obtain ⟨⟨⟨hquote, hslash⟩, hbracket⟩, hbrace⟩ := h
  simp [stripFrom, hquote, hslash, hbracket, hbrace]

theorem stripFrom_quotation :
    stripFrom out .code ('"' :: rest) = stripFrom ('"' :: out) .string rest :=
  rfl

theorem stripFrom_slashes :
    stripFrom out .code ('/' :: '/' :: rest) = stripFrom out .lineComment ('/' :: rest) :=
  rfl

theorem stripFrom_slash_star :
    stripFrom out .code ('/' :: '*' :: rest) = stripFrom out .blockComment rest :=
  rfl

theorem stripFrom_closing {close : Char} (h : close = ']' ∨ close = '}') :
    stripFrom out .code (close :: rest) = stripFrom (close :: dropLastComma out) .code rest := by
  rcases h with rfl | rfl <;> rfl

theorem stripFrom_inside {c : Char} (hquote : c ≠ '"') (hslash : c ≠ '\\') :
    stripFrom out .string (c :: rest) = stripFrom (c :: out) .string rest := by
  simp [stripFrom, hquote, hslash]

theorem stripFrom_escaped (e : Char) :
    stripFrom out .string ('\\' :: e :: rest) = stripFrom (e :: '\\' :: out) .string rest :=
  rfl

theorem stripFrom_unquotation :
    stripFrom out .string ('"' :: rest) = stripFrom ('"' :: out) .code rest :=
  rfl

theorem stripFrom_newline :
    stripFrom out .lineComment ('\n' :: rest) = stripFrom ('\n' :: out) .code rest :=
  rfl

theorem stripFrom_line {c : Char} (h : c ≠ '\n') :
    stripFrom out .lineComment (c :: rest) = stripFrom out .lineComment rest := by
  simp [stripFrom, h]

theorem stripFrom_star_slash :
    stripFrom out .blockComment ('*' :: '/' :: rest) = stripFrom out .code rest :=
  rfl

theorem stripFrom_block {c : Char} (h : ¬ (c = '*' ∧ rest.head? = some '/')) :
    stripFrom out .blockComment (c :: rest) = stripFrom out .blockComment rest := by
  simp [stripFrom, h]

end

/-! ## Between tokens -/

theorem stripFrom_copied {cs : List Char} (h : ∀ c ∈ cs, isCopied c = true) (out rest : List Char) :
    stripFrom out .code (cs ++ rest) = stripFrom (cs.reverse ++ out) .code rest := by
  induction cs generalizing out with
  | nil => rfl
  | cons c cs ih =>
    rw [List.cons_append, stripFrom_char _ _ (h c (by simp)), ih fun c hc => h c (by simp [hc])]
    simp

theorem stripFrom_lineComment {body : List Char} (h : '\n' ∉ body) (out rest : List Char) :
    stripFrom out .lineComment (body ++ '\n' :: rest) = stripFrom ('\n' :: out) .code rest := by
  induction body with
  | nil => exact stripFrom_newline out rest
  | cons c body ih =>
    have hc : c ≠ '\n' := fun hc => h (by simp [hc])
    rw [List.cons_append, stripFrom_line _ _ hc]
    exact ih fun hmem => h (by simp [hmem])

theorem stripFrom_lastComment {body : List Char} (h : '\n' ∉ body) (out : List Char) :
    stripFrom out .lineComment body = out.reverse := by
  induction body with
  | nil => rfl
  | cons c body ih =>
    have hc : c ≠ '\n' := fun hc => h (by simp [hc])
    rw [stripFrom_line _ _ hc]
    exact ih fun hmem => h (by simp [hmem])

theorem stripFrom_blockComment {body : List Char} (h : ¬ ['*', '/'] <:+: body)
    (out rest : List Char) :
    stripFrom out .blockComment (body ++ '*' :: '/' :: rest) = stripFrom out .code rest := by
  induction body with
  | nil => exact stripFrom_star_slash out rest
  | cons c body ih =>
    have hgoes : ¬ (c = '*' ∧ (body ++ '*' :: '/' :: rest).head? = some '/') := by
      rintro ⟨rfl, hhead⟩
      cases body with
      | nil => simp at hhead
      | cons d body =>
        obtain rfl : d = '/' := by simpa using hhead
        exact h ⟨[], body, rfl⟩
    rw [List.cons_append, stripFrom_block _ _ hgoes]
    exact ih fun hbody => h (hbody.trans (List.suffix_cons c body).isInfix)

theorem isCopied_of_isSpace {c : Char} (h : isSpace c = true) : isCopied c = true := by
  simp only [isSpace, Bool.or_eq_true, beq_iff_eq] at h
  rcases h with ((rfl | rfl) | rfl) | rfl <;> rfl

theorem stripFrom_gap (g : Gap) (out rest : List Char) :
    stripFrom out .code (Gap.text g ++ rest)
      = stripFrom ((Gap.text (Gap.stripped g)).reverse ++ out) .code rest := by
  induction g generalizing out with
  | nil => rfl
  | cons f g ih =>
    have hcons : Gap.text (f :: g) = f.text ++ Gap.text g := rfl
    have hstripped : Gap.text (Gap.stripped (f :: g))
        = Gap.text f.stripped ++ Gap.text (Gap.stripped g) := by
      simp [Gap.stripped, Gap.text]
    rw [hcons, hstripped, List.append_assoc, List.reverse_append, List.append_assoc, ← ih]
    cases f with
    | space c h =>
      exact stripFrom_copied (by simpa [Filler.text] using isCopied_of_isSpace h) _ _
    | line body h =>
      have hbody : '\n' ∉ '/' :: body := by simp [h]
      have hline := stripFrom_lineComment hbody out (Gap.text g ++ rest)
      simpa [Filler.text, Filler.stripped, Gap.text, stripFrom_slashes] using hline
    | block body h =>
      have hblock := stripFrom_blockComment h out (Gap.text g ++ rest)
      simpa [Filler.text, Filler.stripped, Gap.text, stripFrom_slash_star] using hblock

/-! ## Closing marks -/

theorem isBlank_of_isSpace {c : Char} (h : isSpace c = true) : Text.isBlank c = true := by
  simp only [isSpace, Bool.or_eq_true, beq_iff_eq] at h
  rcases h with ((rfl | rfl) | rfl) | rfl <;> decide

theorem isBlank_of_mem_stripped {g : Gap} {c : Char}
    (h : c ∈ (Gap.text (Gap.stripped g)).reverse) : Text.isBlank c = true :=
  isBlank_of_isSpace (Gap.isSpace_of_isStrict (Gap.stripped_isStrict g) (List.mem_reverse.1 h))

theorem dropLastComma_of_comma {blanks : List Char} (h : ∀ c ∈ blanks, Text.isBlank c = true)
    (out : List Char) : dropLastComma (blanks ++ ',' :: out) = blanks ++ out := by
  have hcomma : Text.isBlank ',' = false := by decide
  unfold dropLastComma
  rw [List.dropWhile_append_of_pos h, List.takeWhile_append_of_pos h]
  simp [hcomma]

theorem dropLastComma_of_other {blanks : List Char} (h : ∀ c ∈ blanks, Text.isBlank c = true)
    {c : Char} (hblank : Text.isBlank c = false) (hc : c ≠ ',') (out : List Char) :
    dropLastComma (blanks ++ c :: out) = blanks ++ c :: out := by
  unfold dropLastComma
  rw [List.dropWhile_append_of_pos h, List.dropWhile_cons_of_neg (by simp [hblank])]
  split
  · next heq => exact absurd (List.cons.inj heq).1 hc
  · rfl

/-- What stands between the last token of an array or object and its closing mark. -/
theorem stripFrom_close {close : Char} (hclose : close = ']' ∨ close = '}') (trail : Gap)
    (comma : Option Gap) {c : Char} (hblank : Text.isBlank c = false) (hc : c ≠ ',')
    (out rest : List Char) :
    stripFrom (c :: out) .code (Gap.text trail ++ (commaText comma ++ close :: rest))
      = stripFrom (close :: ((Gap.text (Gap.stripped (trail ++ comma.getD []))).reverse ++ c :: out))
        .code rest := by
  rw [stripFrom_gap]
  cases comma with
  | none =>
    rw [commaText, List.nil_append, stripFrom_closing _ _ hclose,
      dropLastComma_of_other (fun _ => isBlank_of_mem_stripped) hblank hc, Option.getD_none,
      List.append_nil]
  | some gap =>
    rw [commaText, List.cons_append, stripFrom_char _ _ rfl, stripFrom_gap,
      stripFrom_closing _ _ hclose,
      dropLastComma_of_comma fun _ => isBlank_of_mem_stripped]
    simp [Gap.stripped, Gap.text]

/-! ## Strings and numbers -/

theorem hexValue?_ne {c : Char} (h : hexValue? c ≠ none) : c ≠ '"' ∧ c ≠ '\\' := by
  constructor
  · rintro rfl
    exact h rfl
  · rintro rfl
    exact h rfl

theorem CodeUnit.ne (u : CodeUnit) :
    ∀ c ∈ [u.digits.1, u.digits.2.1, u.digits.2.2.1, u.digits.2.2.2], c ≠ '"' ∧ c ≠ '\\' := by
  obtain ⟨⟨a, b, c, d⟩, n, h⟩ := u
  simp only [hex4?, Option.bind_eq_bind, Option.bind_eq_some_iff] at h
  obtain ⟨w, hw, x, hx, y, hy, z, hz, -⟩ := h
  intro e he
  simp only [List.mem_cons, List.not_mem_nil, or_false] at he
  rcases he with rfl | rfl | rfl | rfl <;> apply hexValue?_ne <;> simp_all

theorem stripFrom_plain {cs : List Char} (h : ∀ c ∈ cs, c ≠ '"' ∧ c ≠ '\\') (out rest : List Char) :
    stripFrom out .string (cs ++ rest) = stripFrom (cs.reverse ++ out) .string rest := by
  induction cs generalizing out with
  | nil => rfl
  | cons c cs ih =>
    obtain ⟨hquote, hslash⟩ := h c (by simp)
    rw [List.cons_append, stripFrom_inside _ _ hquote hslash, ih fun c hc => h c (by simp [hc])]
    simp

theorem stripFrom_unit (u : CodeUnit) (out rest : List Char) :
    stripFrom out .string (u.text ++ rest) = stripFrom (u.text.reverse ++ out) .string rest := by
  have hdigits := stripFrom_plain u.ne ('u' :: '\\' :: out) rest
  simpa [CodeUnit.text, stripFrom_escaped] using hdigits

theorem stripFrom_piece (p : Piece) (out rest : List Char) :
    stripFrom out .string (p.text ++ rest) = stripFrom (p.text.reverse ++ out) .string rest := by
  cases p with
  | plain c h => exact stripFrom_plain (by simp [Piece.text, h]) out rest
  | escape e c h => exact stripFrom_escaped out rest e
  | point u h => exact stripFrom_unit u out rest
  | pair high low hhigh hlow =>
    rw [Piece.text, List.append_assoc, stripFrom_unit, stripFrom_unit]
    simp

theorem stripFrom_pieces (pieces : List Piece) (out rest : List Char) :
    stripFrom out .string (pieces.flatMap Piece.text ++ '"' :: rest)
      = stripFrom ('"' :: ((pieces.flatMap Piece.text).reverse ++ out)) .code rest := by
  induction pieces generalizing out with
  | nil => exact stripFrom_unquotation out rest
  | cons p pieces ih =>
    rw [List.flatMap_cons, List.append_assoc, stripFrom_piece, ih]
    simp

theorem stripFrom_quote (q : Quote) (out rest : List Char) :
    stripFrom out .code (q.text ++ rest) = stripFrom (q.text.reverse ++ out) .code rest := by
  have hbody := stripFrom_pieces q.pieces ('"' :: out) rest
  simpa [Quote.text, stripFrom_quotation] using hbody

theorem Exponent.mem_text {e : Exponent} {c : Char} (h : c ∈ e.text) :
    c.isDigit = true ∨ c ∈ ['-', '+', 'e', 'E'] := by
  rcases List.mem_cons.1 h with rfl | h
  · rcases e.mark_eq with hm | hm <;> simp [hm]
  · rcases List.mem_append.1 h with h | h
    · unfold Exponent.signText at h
      split at h <;> simp_all
    · exact .inl (e.isDigit c h)

theorem Numeral.mem_text {n : Numeral} {c : Char} (h : c ∈ n.text) :
    c.isDigit = true ∨ c ∈ ['-', '+', '.', 'e', 'E'] := by
  have hsize : c ∈ n.sizeText → c.isDigit = true ∨ c ∈ ['-', '+', '.', 'e', 'E'] := by
    intro h
    simp only [Numeral.sizeText, List.mem_append] at h
    rcases h with h | h | h
    · exact .inl (n.isDigit c (List.mem_append_left _ h))
    · unfold Numeral.placesText at h
      split at h
      · cases h
      · rcases List.mem_cons.1 h with rfl | h
        · simp
        · exact .inl (n.isDigit c (List.mem_append_right _ h))
    · unfold Numeral.exponentText at h
      split at h
      · cases h
      · refine (Exponent.mem_text h).imp_right fun h => ?_
        simp only [List.mem_cons, List.not_mem_nil, or_false] at h
        rcases h with rfl | rfl | rfl | rfl <;> decide
  unfold Numeral.text at h
  split at h
  · rcases List.mem_cons.1 h with rfl | h
    · simp
    · exact hsize h
  · exact hsize h

theorem isCopied_of_isDigit {c : Char} (h : c.isDigit = true) : isCopied c = true := by
  simp [isCopied, ne_of_isDigit h]

theorem Numeral.isCopied {n : Numeral} : ∀ c ∈ n.text, isCopied c = true := by
  intro c hc
  rcases Numeral.mem_text hc with h | h
  · exact isCopied_of_isDigit h
  · simp only [List.mem_cons, List.not_mem_nil, or_false] at h
    rcases h with rfl | rfl | rfl | rfl | rfl <;> rfl

def Ends (cs : List Char) : Prop :=
  ∃ front c, cs = front ++ [c] ∧ Text.isBlank c = false ∧ c ≠ ','

theorem Ends.append {cs : List Char} (h : Ends cs) (front : List Char) : Ends (front ++ cs) := by
  obtain ⟨f, c, rfl, hc⟩ := h
  exact ⟨front ++ f, c, by simp, hc⟩

theorem ends_of_isDigit {cs : List Char} (hne : cs ≠ []) (h : ∀ c ∈ cs, c.isDigit = true) :
    Ends cs := by
  obtain ⟨front, c, rfl⟩ := (List.eq_nil_or_concat' cs).resolve_left hne
  have hc := h c (by simp)
  refine ⟨front, c, rfl, ?_, ?_⟩
  · have hrange : 48 ≤ c.toNat ∧ c.toNat ≤ 57 := Char.isDigit_iff_toNat.1 hc
    simp [Text.isBlank, Text.inRanges, Text.blankRanges]
    omega
  · rintro rfl
    exact absurd hc (by decide)

theorem Exponent.ends (e : Exponent) : Ends e.text :=
  (ends_of_isDigit e.digits_ne e.isDigit).append (e.mark :: e.signText)

theorem Numeral.ends (n : Numeral) : Ends n.text := by
  have hsize : Ends n.sizeText := by
    unfold Numeral.sizeText Numeral.exponentText
    cases n.exponent with
    | some e =>
      rw [← List.append_assoc]
      exact e.ends.append _
    | none =>
      rw [List.append_nil]
      unfold Numeral.placesText
      have hdigits := n.isDigit
      split
      · rw [List.append_nil]
        exact ends_of_isDigit n.whole_ne fun c hc => hdigits c (List.mem_append_left _ hc)
      · next places hne =>
        exact ((ends_of_isDigit hne fun c hc => hdigits c (List.mem_append_right _ hc)).append
          ['.']).append n.whole
  unfold Numeral.text
  split
  · exact hsize.append ['-']
  · exact hsize

theorem Doc.ends (d : Doc) : Ends d.text := by
  cases d with
  | null => exact ⟨"nul".toList, 'l', by rfl, by decide, by decide⟩
  | bool b =>
    cases b
    · exact ⟨"fals".toList, 'e', by rfl, by decide, by decide⟩
    · exact ⟨"tru".toList, 'e', by rfl, by decide, by decide⟩
  | number n => exact n.ends
  | string q => exact ⟨'"' :: q.pieces.flatMap Piece.text, '"', rfl, by decide, by decide⟩
  | emptyArray gap => exact ⟨'[' :: Gap.text gap, ']', rfl, by decide, by decide⟩
  | array items => exact ⟨'[' :: items.text, ']', rfl, by decide, by decide⟩
  | emptyObject gap => exact ⟨'{' :: Gap.text gap, '}', rfl, by decide, by decide⟩
  | object members => exact ⟨'{' :: members.text, '}', rfl, by decide, by decide⟩

/-! ## Documents -/

theorem stripFrom_after {close : Char} (hclose : close = ']' ∨ close = '}') (trail : Gap)
    (comma : Option Gap) {cs : List Char} (hcs : Ends cs) (out rest : List Char) :
    stripFrom (cs.reverse ++ out) .code (Gap.text trail ++ (commaText comma ++ close :: rest))
      = stripFrom (close :: ((Gap.text (Gap.stripped (trail ++ comma.getD []))).reverse
        ++ (cs.reverse ++ out))) .code rest := by
  obtain ⟨front, c, rfl, hblank, hc⟩ := hcs
  have hlast := stripFrom_close hclose trail comma hblank hc (front.reverse ++ out) rest
  simpa using hlast

theorem stripFrom_empty {opening close : Char} (hopening : isCopied opening = true)
    (hblank : Text.isBlank opening = false) (hcomma : opening ≠ ',')
    (hclose : close = ']' ∨ close = '}') (gap : Gap) (out rest : List Char) :
    stripFrom out .code ((opening :: (Gap.text gap ++ [close])) ++ rest)
      = stripFrom ((opening :: (Gap.text (Gap.stripped gap) ++ [close])).reverse ++ out) .code rest := by
  have hlast := stripFrom_close hclose gap none hblank hcomma out rest
  rw [List.cons_append, stripFrom_char _ _ hopening, List.append_assoc]
  simpa [commaText] using hlast

mutual

theorem Doc.stripFrom_text (d : Doc) (out rest : List Char) :
    stripFrom out .code (d.text ++ rest) = stripFrom (d.stripped.text.reverse ++ out) .code rest := by
  cases d with
  | null => exact stripFrom_copied (by simp [Doc.text, isCopied]) out rest
  | bool b => cases b <;> exact stripFrom_copied (by simp [Doc.text, isCopied]) out rest
  | number n => exact stripFrom_copied n.isCopied out rest
  | string q => exact stripFrom_quote q out rest
  | emptyArray gap => exact stripFrom_empty rfl (by decide) (by decide) (.inl rfl) gap out rest
  | array items =>
    have hitems := items.stripFrom_text ('[' :: out) rest
    rw [Doc.text, List.cons_append, stripFrom_char _ _ rfl, List.append_assoc, List.singleton_append,
      hitems]
    simp [Doc.stripped, Doc.text]
  | emptyObject gap => exact stripFrom_empty rfl (by decide) (by decide) (.inr rfl) gap out rest
  | object members =>
    have hmembers := members.stripFrom_text ('{' :: out) rest
    rw [Doc.text, List.cons_append, stripFrom_char _ _ rfl, List.append_assoc, List.singleton_append,
      hmembers]
    simp [Doc.stripped, Doc.text]

theorem Items.stripFrom_text (items : Items) (out rest : List Char) :
    stripFrom out .code (items.text ++ ']' :: rest)
      = stripFrom (']' :: (items.stripped.text.reverse ++ out)) .code rest := by
  cases items with
  | last lead d trail comma =>
    simp only [Items.text, List.append_assoc]
    rw [stripFrom_gap, d.stripFrom_text, stripFrom_after (.inl rfl) trail comma d.stripped.ends]
    simp [Items.stripped, Items.text, commaText]
  | cons lead d trail others =>
    simp only [Items.text, List.append_assoc, List.cons_append]
    rw [stripFrom_gap, d.stripFrom_text, stripFrom_gap, stripFrom_char _ _ rfl, others.stripFrom_text]
    simp [Items.stripped, Items.text]

theorem Members.stripFrom_text (members : Members) (out rest : List Char) :
    stripFrom out .code (members.text ++ '}' :: rest)
      = stripFrom ('}' :: (members.stripped.text.reverse ++ out)) .code rest := by
  cases members with
  | last lead key before after d trail comma =>
    simp only [Members.text, List.append_assoc, List.cons_append]
    rw [stripFrom_gap, stripFrom_quote, stripFrom_gap, stripFrom_char _ _ rfl, stripFrom_gap,
      d.stripFrom_text, stripFrom_after (.inr rfl) trail comma d.stripped.ends]
    simp [Members.stripped, Members.text, commaText]
  | cons lead key before after d trail others =>
    simp only [Members.text, List.append_assoc, List.cons_append]
    rw [stripFrom_gap, stripFrom_quote, stripFrom_gap, stripFrom_char _ _ rfl, stripFrom_gap,
      d.stripFrom_text, stripFrom_gap, stripFrom_char _ _ rfl, others.stripFrom_text]
    simp [Members.stripped, Members.text]

end

namespace Document

theorem stripComments_text (d : Document) : stripComments d.text = d.stripped.text := by
  have hlast : ∀ out, stripFrom out .code (lastComment d.last?) = out.reverse := by
    intro out
    cases d.last? with
    | none => rfl
    | some cs =>
      have hbody : '\n' ∉ '/' :: cs.1 := by simp [cs.2]
      have hcomment := stripFrom_lastComment hbody out
      simpa [lastComment, stripFrom_slashes] using hcomment
  unfold stripComments text
  rw [String.toList_ofList, chars, stripFrom_gap, d.body.stripFrom_text, stripFrom_gap,
    hlast]
  simp [stripped, chars, lastComment]

theorem readWithin_stripped_iff (d : Document) (limits : Limits) :
    readWithin limits d.stripped.text = .ok d.value
      ↔ d.body.depth ≤ limits.depth ∧ Admits limits.digits d.body.width := by
  have hagree := d.body.stripped_agree
  have hread := readWithin_text d.stripped_isStrict limits
  rw [show d.stripped.value = d.value from hagree.value,
    show d.stripped.body.depth = d.body.depth from hagree.depth,
    show d.stripped.body.width = d.body.width from hagree.width] at hread
  exact hread

/-- Comments and last commas go and nothing else does; what is left is a strict text of the same
value. Whatever the limits of the reader are, it gives that value exactly as far as they reach. -/
theorem read_stripComments (d : Document) :
    stripComments d.text = d.stripped.text ∧ d.stripped.IsStrict ∧ d.stripped.value = d.value
      ∧ (d.IsStrict → stripComments d.text = d.text)
      ∧ ∀ limits, readWithin limits (stripComments d.text) = .ok d.value
        ↔ d.body.depth ≤ limits.depth ∧ Admits limits.digits d.body.width := by
  have htext := d.stripComments_text
  refine ⟨htext, d.stripped_isStrict, d.body.stripped_agree.value, ?_, ?_⟩
  · intro hstrict
    rw [htext, stripped_of_isStrict hstrict]
  · intro limits
    rw [htext]
    exact d.readWithin_stripped_iff limits

def commented : Document where
  lead := [.block [' ', ',', ' '] (by decide)]
  body := .array (.cons []
    (.string ⟨[.plain '/' (by decide), .plain '/' (by decide), .escape '"' '"' (by decide),
      .plain ',' (by decide), .plain ']' (by decide)]⟩)
    [.space ' ' rfl]
    (.last [.line [' ', '['] (by decide)]
      (.object (.last [] ⟨[.plain 'k' (by decide)]⟩ [] [.space ' ' rfl]
        (.number ⟨true, ['1'], by simp, by simp, ['5'], by simp, none⟩)
        [] (some [.block ['*'] (by decide), .space '\t' rfl])))
      [.space ' ' rfl] (some [.space '\n' rfl])))
  trail := [.space '\n' rfl]
  last? := some ⟨['!'], by decide⟩

theorem read_stripComments_commented :
    commented.text = "/* , */[\"//\\\",]\" ,// [\n\x7b\"k\": -1.5,/***/\t\x7d ,\n]\n//!"
      ∧ stripComments commented.text = "[\"//\\\",]\" ,\n\x7b\"k\": -1.5\t\x7d \n]\n"
      ∧ readWithin ⟨2, some 0⟩ (stripComments commented.text) = .ok (.arr [.str "//\",]",
        .obj [("k", .real (.ofDecimal true 15 2 (-1)))]])
      ∧ commented.stripped.IsStrict
      ∧ stripComments commented.stripped.text = commented.stripped.text := by
  obtain ⟨htext, hstrict, -, -, hread⟩ := read_stripComments commented
  obtain ⟨-, -, -, hsame, -⟩ := read_stripComments commented.stripped
  refine ⟨by decide +kernel, ?_, (hread _).2 ⟨by decide, by decide⟩, hstrict, hsame hstrict⟩
  rw [htext]
  decide +kernel

def nested : Nat → Doc
  | 0 => .emptyArray []
  | n + 1 => .array (.last [] (nested n) [] none)

theorem nested_depth (n : Nat) : (nested n).depth = n + 1 := by
  induction n with
  | zero => rfl
  | succ n ih => rw [nested, Doc.depth, Items.depth, ih]

def tower (n : Nat) : Document :=
  ⟨[], nested n, [], none⟩

/-- No limits are wide enough for all documents: one more array around what they take is too much. -/
theorem read_stripComments_tower :
    ¬ ∃ limits, ∀ d : Document, readWithin limits (stripComments d.text) = .ok d.value := by
  rintro ⟨limits, hall⟩
  have hread := hall (tower limits.depth)
  rw [stripComments_text, readWithin_stripped_iff] at hread
  have hdepth : (nested limits.depth).depth ≤ limits.depth := hread.1
  rw [nested_depth] at hdepth
  omega

end Document

end CodeAtlas.Json
