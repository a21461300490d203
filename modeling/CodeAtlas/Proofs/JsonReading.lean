import CodeAtlas.Proofs.Delimited
import CodeAtlas.Proofs.JsonText
import Mathlib.Order.MinMax
import Mathlib.Tactic.Common

/-!
# Reading JSON texts

The reader gives the value of every strict document, as long as arrays and objects do not nest too
deeply and integers are not too long for it.
-/

namespace CodeAtlas.Json

variable {maxDigits : Option Nat}

theorem admits_zero (maxDigits : Option Nat) : Admits maxDigits 0 :=
  fun m _ => Nat.zero_le m

theorem admits_max {a b : Nat} :
    Admits maxDigits (max a b) ↔ Admits maxDigits a ∧ Admits maxDigits b := by
  simp only [Admits, max_le_iff]
  exact ⟨fun h => ⟨fun m hm => (h m hm).1, fun m hm => (h m hm).2⟩,
    fun h m hm => ⟨h.1 m hm, h.2 m hm⟩⟩

/-! ## Strings -/

namespace Piece

def points : Piece → List Nat
  | plain c _ => [c.toNat]
  | escape _ c _ => [c.toNat]
  | point u _ => [u.value]
  | pair high low _ _ => [high.value, low.value]

end Piece

@[simp] theorem consPoint_ok (n : Nat) (ns : List Nat) (rest : List Char) :
    consPoint n (.ok (ns, rest)) = .ok (n :: ns, rest) :=
  rfl

theorem stringPoints_unit (u : CodeUnit) (rest : List Char) :
    stringPoints (u.text ++ rest) = consPoint u.value (stringPoints rest) := by
  simp [CodeUnit.text, stringPoints, u.spells]

theorem stringPoints_plain {c : Char} (h : c ≠ '"' ∧ c ≠ '\\' ∧ 0x20 ≤ c.toNat) (rest : List Char) :
    stringPoints (c :: rest) = consPoint c.toNat (stringPoints rest) := by
  obtain ⟨hquote, hslash, hlow⟩ := h
  have hval : ¬ c.val < 0x20 := by
    rw [UInt32.lt_iff_toNat_lt]
    exact Nat.not_lt.2 hlow
  rw [stringPoints.eq_def]
  split
  · simp_all
  · simp_all
  · simp_all
  · simp_all
  · next c' rest' _ _ _ heq =>
    obtain ⟨rfl, rfl⟩ := List.cons.inj heq
    rw [if_neg (by simp [hslash, hval])]

theorem stringPoints_escape {e c : Char} (h : (e, c) ∈ escapes) (rest : List Char) :
    stringPoints ('\\' :: e :: rest) = consPoint c.toNat (stringPoints rest) := by
  simp only [escapes, List.mem_cons, Prod.mk.injEq, List.not_mem_nil, or_false] at h
  rcases h with ⟨rfl, rfl⟩ | ⟨rfl, rfl⟩ | ⟨rfl, rfl⟩ | ⟨rfl, rfl⟩ | ⟨rfl, rfl⟩ | ⟨rfl, rfl⟩ |
    ⟨rfl, rfl⟩ | ⟨rfl, rfl⟩ <;> simp [stringPoints, simpleEscape?]

theorem stringPoints_piece (p : Piece) {rest after : List Char} {ns : List Nat}
    (h : stringPoints rest = .ok (ns, after)) :
    stringPoints (p.text ++ rest) = .ok (p.points ++ ns, after) := by
  cases p with
  | plain c hc =>
    rw [Piece.text, List.singleton_append, stringPoints_plain hc, h]
    rfl
  | escape e c hc =>
    rw [Piece.text, List.cons_append, List.singleton_append, stringPoints_escape hc, h]
    rfl
  | point u hu =>
    rw [Piece.text, stringPoints_unit, h]
    rfl
  | pair high low hhigh hlow =>
    rw [Piece.text, List.append_assoc, stringPoints_unit, stringPoints_unit, h]
    rfl

theorem stringPoints_pieces (pieces : List Piece) (rest : List Char) :
    stringPoints (pieces.flatMap Piece.text ++ '"' :: rest)
      = .ok (pieces.flatMap Piece.points, rest) := by
  induction pieces with
  | nil => simp [stringPoints]
  | cons p pieces ih =>
    rw [List.flatMap_cons, List.flatMap_cons, List.append_assoc]
    exact stringPoints_piece p ih

theorem joinPoints_cons {n : Nat} (h : n < 0xd800 ∨ 0xe000 ≤ n) (ns : List Nat) :
    joinPoints (n :: ns) = Char.ofNat n :: joinPoints ns := by
  have hchar : pointChar n = Char.ofNat n := by
    unfold pointChar
    rw [if_neg (by simp; omega)]
  cases ns with
  | nil => simp [joinPoints, hchar]
  | cons m ns =>
    rw [joinPoints, if_neg (by simp; omega), hchar]

theorem toNat_outside (c : Char) : c.toNat < 0xd800 ∨ 0xe000 ≤ c.toNat := by
  rcases c.valid with h | h
  · exact .inl h
  · exact .inr h.1

theorem joinPoints_points (pieces : List Piece) :
    joinPoints (pieces.flatMap Piece.points) = pieces.map Piece.char := by
  induction pieces with
  | nil => rfl
  | cons p pieces ih =>
    rw [List.flatMap_cons, List.map_cons, ← ih]
    cases p with
    | plain c hc =>
      rw [Piece.points, List.singleton_append, joinPoints_cons (toNat_outside c), Char.ofNat_toNat]
      rfl
    | escape e c hc =>
      rw [Piece.points, List.singleton_append, joinPoints_cons (toNat_outside c), Char.ofNat_toNat]
      rfl
    | point u hu =>
      rw [Piece.points, List.singleton_append, joinPoints_cons hu]
      rfl
    | pair high low hhigh hlow =>
      have hpair : (0xd800 ≤ high.value && high.value < 0xdc00 && 0xdc00 ≤ low.value
          && low.value < 0xe000) = true := by
        simp [hhigh, hlow]
      rw [Piece.points, List.cons_append, List.singleton_append, joinPoints, if_pos hpair]
      rfl

theorem stringBody_quote (q : Quote) (rest : List Char) :
    stringBody (q.pieces.flatMap Piece.text ++ '"' :: rest) = .ok (q.value, rest) := by
  rw [stringBody, stringPoints_pieces]
  simp [Except.map, joinPoints_points, Quote.value]

/-! ## Numbers -/

def goesOn (c : Char) : Bool :=
  c.isDigit || c == '.' || c == 'e' || c == 'E'

theorem span_of_stops {p : Char → Bool} {x rest : List Char} (hx : ∀ c ∈ x, p c = true)
    (hrest : Stops p rest) : (x ++ rest).span p = (x, rest) := by
  have hdrop : (x ++ rest).dropWhile p = rest := by
    have happend := List.takeWhile_append_dropWhile (p := p) (l := x ++ rest)
    rw [takeWhile_of_stops hx hrest] at happend
    exact List.append_cancel_left happend
  rw [List.span_eq_takeWhile_dropWhile, takeWhile_of_stops hx hrest, hdrop]

theorem digitsValue_eq (ds : List Char) : digitsValue ds = Nat.ofDigitChars 10 ds 0 := by
  unfold digitsValue Nat.ofDigitChars
  simp only [Nat.mul_comm]

/-- The rest of reading a signed number, once the sign is known. -/
theorem signedDigits_digits {ds rest : List Char} (hne : ds ≠ []) (hds : ∀ c ∈ ds, c.isDigit = true)
    (hrest : Stops Char.isDigit rest) (negative : Bool) :
    (match (ds ++ rest).span Char.isDigit with
      | ([], _) => none
      | (ds, rest) => some (if negative then -(digitsValue ds : Int) else digitsValue ds, rest))
      = some (if negative then -(Nat.ofDigitChars 10 ds 0 : Int) else Nat.ofDigitChars 10 ds 0, rest) := by
  rw [span_of_stops hds hrest, ← digitsValue_eq]
  obtain ⟨d, ds, rfl⟩ := List.exists_cons_of_ne_nil hne
  rfl

theorem signedDigits_text (e : Exponent) {rest : List Char} (hrest : Stops Char.isDigit rest) :
    signedDigits (e.signText ++ (e.digits ++ rest)) = some (e.value, rest) := by
  have hread := signedDigits_digits e.digits_ne e.isDigit hrest
  unfold signedDigits Exponent.signText Exponent.value
  cases hsign : e.sign with
  | none =>
    obtain ⟨d, ds, hds⟩ := List.exists_cons_of_ne_nil e.digits_ne
    have hd : d.isDigit = true := e.isDigit d (by simp [hds])
    rw [hds] at hread ⊢
    split
    next negative text heq =>
    split at heq
    · next h =>
      rw [(List.cons.inj h).1] at hd
      exact absurd hd (by decide)
    · next h =>
      rw [(List.cons.inj h).1] at hd
      exact absurd hd (by decide)
    · obtain ⟨rfl, rfl⟩ := Prod.mk.inj heq
      exact hread false
  | some negative =>
    cases negative
    · exact hread false
    · exact hread true

theorem exponentPart_text (e : Exponent) {rest : List Char} (hrest : Stops Char.isDigit rest) :
    exponentPart (e.text ++ rest) = (some e.value, rest) := by
  have hmark : (e.mark == 'e' || e.mark == 'E') = true := by
    rcases e.mark_eq with h | h <;> simp [h]
  rw [Exponent.text, List.cons_append, List.append_assoc, exponentPart, if_pos hmark,
    signedDigits_text e hrest]

namespace Numeral

variable {n : Numeral} {rest : List Char}

theorem isDigit_whole (n : Numeral) : ∀ c ∈ n.whole, c.isDigit = true := fun c hc =>
  n.isDigit c (List.mem_append_left _ hc)

theorem isDigit_places (n : Numeral) : ∀ c ∈ n.places, c.isDigit = true := fun c hc =>
  n.isDigit c (List.mem_append_right _ hc)

theorem exponentText_stops (n : Numeral) (hrest : Stops goesOn rest) :
    Stops (fun c => c.isDigit || c == '.') (n.exponentText ++ rest) := by
  unfold exponentText
  cases n.exponent with
  | none => exact hrest.of_imp fun c hc => by simp_all [goesOn]
  | some e =>
    show Stops _ (e.mark :: (e.signText ++ e.digits ++ rest))
    rcases e.mark_eq with h | h <;> simp [h]

theorem integerDigits_text (n : Numeral) {tail : List Char} (htail : Stops Char.isDigit tail) :
    integerDigits (n.whole ++ tail) = some (n.whole, tail) := by
  rcases n.leading with hzero | hleading
  · rw [hzero]
    rfl
  · have hspan := span_of_stops n.isDigit_whole htail
    obtain ⟨c, cs, hcs⟩ := List.exists_cons_of_ne_nil n.whole_ne
    unfold integerDigits
    split
    · next heq =>
      rw [hcs] at heq hleading
      have := (List.cons.inj heq).1
      simp [this] at hleading
    · rw [hspan, hcs]

theorem fraction_text (n : Numeral) {tail : List Char}
    (htail : Stops (fun c => c.isDigit || c == '.') tail) :
    fraction (n.placesText ++ tail) = (n.places, tail) := by
  have hdigit : Stops Char.isDigit tail := htail.of_imp fun c hc => by simp [hc]
  unfold placesText
  split
  · next hplaces =>
    rw [hplaces, List.nil_append]
    unfold fraction
    split
    · next r =>
      have := htail '.' (by simp)
      simp at this
    · rfl
  · next places hne =>
    have hspan := span_of_stops n.isDigit_places hdigit
    obtain ⟨c, cs, hcs⟩ := List.exists_cons_of_ne_nil hne
    rw [List.cons_append, fraction, hspan, hcs]

theorem exponentPart_exponentText (n : Numeral) (hrest : Stops goesOn rest) :
    exponentPart (n.exponentText ++ rest) = (n.exponent.map Exponent.value, rest) := by
  unfold exponentText
  cases n.exponent with
  | none =>
    cases rest with
    | nil => rfl
    | cons c rest =>
      have hc : goesOn c = false := by simpa using hrest
      rw [List.nil_append, exponentPart, if_neg (by simp_all [goesOn])]
      rfl
  | some e => exact exponentPart_text e (hrest.of_imp fun c hc => by simp [goesOn, hc])

theorem unsignedNumber_sizeText (n : Numeral) (hrest : Stops goesOn rest) :
    unsignedNumber maxDigits n.negative (n.sizeText ++ rest) =
      if n.isInteger = true → Admits maxDigits n.whole.length then .ok (n.value, rest)
      else .error .tooLong := by
  have htail := n.exponentText_stops hrest
  have hdigit : Stops Char.isDigit (n.placesText ++ (n.exponentText ++ rest)) := by
    unfold placesText
    split
    · exact htail.of_imp fun c hc => by simp [hc]
    · simp
  have hwhole := n.integerDigits_text hdigit
  have hplaces := n.fraction_text htail
  have hexponent := n.exponentPart_exponentText hrest
  unfold unsignedNumber sizeText
  rw [List.append_assoc, List.append_assoc, hwhole]
  simp only [hplaces, hexponent, digitsValue_eq]
  by_cases hinteger : n.isInteger = true
  · have hempty : n.places = [] ∧ n.exponent = none := by simpa [isInteger] using hinteger
    simp [value, hinteger, hempty, placesText, exponentText]
  · rw [if_neg (by simpa [isInteger] using hinteger), if_pos (by simp [hinteger]), value,
      if_neg hinteger]
    rfl

end Numeral

/-! ## The reader, step by step -/

section
variable (depth fuel : Nat) (before : List (String × Json)) (text rest : List Char)

theorem readValue_quotation : readValue maxDigits depth (fuel + 1) ('"' :: rest) =
    (stringBody rest).map fun (s, rest) => (.str s, rest) :=
  rfl

theorem readValue_bracket : readValue maxDigits depth (fuel + 1) ('[' :: rest) =
    if depth == 0 then .error .tooDeep
    else match skipSpaces rest with
      | ']' :: rest => .ok (.arr [], rest)
      | rest =>
        (readItems maxDigits (depth - 1) fuel rest).map fun (items, rest) => (.arr items, rest) :=
  rfl

theorem readValue_brace : readValue maxDigits depth (fuel + 1) ('{' :: rest) =
    if depth == 0 then .error .tooDeep
    else match skipSpaces rest with
      | '}' :: rest => .ok (.obj [], rest)
      | rest =>
        (readMembers maxDigits (depth - 1) fuel [] rest).map fun (members, rest) =>
          (.obj members, rest) :=
  rfl

theorem readValue_other {c : Char} (h : c ≠ '"' ∧ c ≠ '[' ∧ c ≠ '{') :
    readValue maxDigits depth (fuel + 1) (c :: rest) =
      match keyword? (c :: rest) with
      | some (v, rest) => .ok (v, rest)
      | none =>
        if c = '-' then unsignedNumber maxDigits true rest
        else unsignedNumber maxDigits false (c :: rest) := by
  unfold readValue
  split
  · simp_all
  · simp_all
  · simp_all
  · cases keyword? (c :: rest) with
    | some r => rfl
    | none =>
      by_cases hc : c = '-'
      · subst hc
        rfl
      · simp [hc]

theorem readItems_succ : readItems maxDigits depth (fuel + 1) text =
    match readValue maxDigits depth fuel text with
    | .error e => .error e
    | .ok (v, rest) =>
      match skipSpaces rest with
      | ',' :: rest =>
        (readItems maxDigits depth fuel (skipSpaces rest)).map fun (vs, rest) => (v :: vs, rest)
      | ']' :: rest => .ok ([v], rest)
      | _ => .error .malformed :=
  rfl

theorem readMembers_quotation : readMembers maxDigits depth (fuel + 1) before ('"' :: text) =
    match stringBody text with
    | .error e => .error e
    | .ok (key, rest) =>
      match skipSpaces rest with
      | ':' :: rest =>
        match readValue maxDigits depth fuel (skipSpaces rest) with
        | .error e => .error e
        | .ok (v, rest) =>
          match skipSpaces rest with
          | ',' :: rest =>
            readMembers maxDigits depth fuel (insertMember before key v) (skipSpaces rest)
          | '}' :: rest => .ok (insertMember before key v, rest)
          | _ => .error .malformed
      | _ => .error .malformed :=
  rfl

end

/-! ## Values -/

theorem keyword?_of_isDigit {c : Char} (h : c.isDigit = true) (rest : List Char) :
    keyword? (c :: rest) = none := by
  have hne : ∀ d : Char, d.isDigit = false → (d == c) = false :=
    fun d hd => beq_eq_false_iff_ne.2 (ne_of_isDigit h hd).symm
  simp [keyword?, List.isPrefixOf, hne]

theorem keyword?_of_minus {c : Char} (h : c.isDigit = true) (rest : List Char) :
    keyword? ('-' :: c :: rest) = none := by
  have hne : 'I' ≠ c := (ne_of_isDigit h rfl).symm
  simp [keyword?, List.isPrefixOf, hne]

theorem readValue_null (depth fuel : Nat) (rest : List Char) :
    readValue maxDigits depth (fuel + 1) ("null".toList ++ rest) = .ok (.null, rest) := by
  have hlength : "null".length = 4 := rfl
  simp [readValue_other, keyword?, List.isPrefixOf, hlength]

theorem readValue_bool (b : Bool) (depth fuel : Nat) (rest : List Char) :
    readValue maxDigits depth (fuel + 1) ((if b then "true" else "false").toList ++ rest)
      = .ok (.bool b, rest) := by
  have htrue : "true".length = 4 := rfl
  have hfalse : "false".length = 5 := rfl
  cases b <;> simp [readValue_other, keyword?, List.isPrefixOf, htrue, hfalse]

theorem readValue_of_digit {depth fuel : Nat} {c : Char} {cs : List Char} (h : c.isDigit = true) :
    readValue maxDigits depth (fuel + 1) (c :: cs) = unsignedNumber maxDigits false (c :: cs) := by
  have hother : c ≠ '"' ∧ c ≠ '[' ∧ c ≠ '{' :=
    ⟨ne_of_isDigit h rfl, ne_of_isDigit h rfl, ne_of_isDigit h rfl⟩
  simp only [readValue_other depth fuel cs hother, keyword?_of_isDigit h]
  rw [if_neg (ne_of_isDigit h rfl)]

theorem readValue_of_minus {depth fuel : Nat} {c : Char} {cs : List Char} (h : c.isDigit = true) :
    readValue maxDigits depth (fuel + 1) ('-' :: c :: cs)
      = unsignedNumber maxDigits true (c :: cs) := by
  simp [readValue_other, keyword?_of_minus h]

theorem skipSpaces_gap {g : Gap} (h : Gap.IsStrict g) (rest : List Char) :
    skipSpaces (Gap.text g ++ rest) = skipSpaces rest :=
  List.dropWhile_append_of_pos fun _ hc => Gap.isSpace_of_isStrict h hc

@[simp] theorem skipSpaces_cons {c : Char} (h : isSpace c = false) (rest : List Char) :
    skipSpaces (c :: rest) = c :: rest := by
  simp [skipSpaces, h]

theorem stops_gap {g : Gap} (h : Gap.IsStrict g) {rest : List Char} (hrest : Stops goesOn rest) :
    Stops goesOn (Gap.text g ++ rest) := by
  cases hg : Gap.text g with
  | nil => exact hrest
  | cons c cs =>
    have hc := Gap.isSpace_of_isStrict h (c := c) (by simp [hg])
    rw [List.cons_append, stops_cons]
    unfold isSpace at hc
    unfold goesOn
    simp at hc
    rcases hc with ((rfl | rfl) | rfl) | rfl <;> rfl

theorem Numeral.starts (n : Numeral) : ∃ c cs, n.sizeText = c :: cs ∧ c.isDigit = true := by
  obtain ⟨c, cs, hcs⟩ := List.exists_cons_of_ne_nil n.whole_ne
  exact ⟨c, cs ++ (n.placesText ++ n.exponentText), by rw [sizeText, hcs]; rfl,
    n.isDigit_whole c (by simp [hcs])⟩

theorem Numeral.readValue_text (n : Numeral) (depth fuel : Nat) {rest : List Char}
    (hrest : Stops goesOn rest) :
    readValue maxDigits depth (fuel + 1) (n.text ++ rest) =
      if n.isInteger = true → Admits maxDigits n.whole.length then .ok (n.value, rest)
      else .error .tooLong := by
  obtain ⟨c, cs, hcs, hc⟩ := n.starts
  rw [← n.unsignedNumber_sizeText hrest]
  unfold text
  cases n.negative with
  | false => simp [hcs, readValue_of_digit hc]
  | true => simp [hcs, readValue_of_minus hc]

/-- A value begins with neither a blank nor a closing bracket. -/
theorem Doc.starts (d : Doc) : ∃ c cs, d.text = c :: cs ∧ isSpace c = false ∧ c ≠ ']' := by
  cases d with
  | null => exact ⟨_, _, rfl, rfl, by decide⟩
  | bool b => cases b <;> exact ⟨_, _, rfl, rfl, by decide⟩
  | number n =>
    obtain ⟨c, cs, hcs, hc⟩ := n.starts
    rw [Doc.text, Numeral.text]
    split
    · exact ⟨_, _, rfl, rfl, by decide⟩
    · exact ⟨c, cs, hcs, by simp [isSpace, ne_of_isDigit hc], ne_of_isDigit hc rfl⟩
  | _ => exact ⟨_, _, rfl, rfl, by decide⟩

theorem readValue_quote (q : Quote) (depth fuel : Nat) (rest : List Char) :
    readValue maxDigits depth (fuel + 1) (q.text ++ rest) = .ok (.str q.value, rest) := by
  simp [Quote.text, readValue_quotation, stringBody_quote, Except.map]

theorem Doc.skipSpaces_text {lead : Gap} (h : Gap.IsStrict lead) (d : Doc) (rest : List Char) :
    skipSpaces (Gap.text lead ++ (d.text ++ rest)) = d.text ++ rest := by
  obtain ⟨c, cs, hcs, hspace, -⟩ := d.starts
  rw [skipSpaces_gap h, hcs, List.cons_append, skipSpaces_cons hspace]

theorem skipSpaces_quote {lead : Gap} (h : Gap.IsStrict lead) (key : Quote) (rest : List Char) :
    skipSpaces (Gap.text lead ++ (key.text ++ rest)) = key.text ++ rest :=
  Doc.skipSpaces_text h (.string key) rest

theorem Items.skipSpaces_text {items : Items} (h : items.IsStrict) (rest : List Char) :
    ∃ c cs, skipSpaces (items.text ++ rest) = c :: cs ∧ c ≠ ']' := by
  cases items with
  | last lead d trail comma =>
    obtain ⟨c, cs, hcs, hspace, hc⟩ := d.starts
    refine ⟨c, cs ++ (Gap.text trail ++ commaText comma ++ rest), ?_, hc⟩
    simp [Items.text, skipSpaces_gap h.1, hcs, hspace]
  | cons lead d trail more =>
    obtain ⟨c, cs, hcs, hspace, hc⟩ := d.starts
    refine ⟨c, cs ++ (Gap.text trail ++ ',' :: more.text ++ rest), ?_, hc⟩
    simp [Items.text, skipSpaces_gap h.1, hcs, hspace]

theorem Members.skipSpaces_text {members : Members} (h : members.IsStrict) (rest : List Char) :
    ∃ cs, skipSpaces (members.text ++ rest) = '"' :: cs := by
  cases members <;> simp [Members.text, skipSpaces_gap h.1, Quote.text, show isSpace '"' = false from rfl]

theorem readValue_emptyArray {gap : Gap} (h : Gap.IsStrict gap) (depth fuel : Nat)
    (rest : List Char) :
    readValue maxDigits depth (fuel + 1) ((Doc.emptyArray gap).text ++ rest) =
      if depth = 0 then .error .tooDeep else .ok (.arr [], rest) := by
  simp [Doc.text, readValue_bracket, skipSpaces_gap h, show isSpace ']' = false from rfl]

theorem readValue_emptyObject {gap : Gap} (h : Gap.IsStrict gap) (depth fuel : Nat)
    (rest : List Char) :
    readValue maxDigits depth (fuel + 1) ((Doc.emptyObject gap).text ++ rest) =
      if depth = 0 then .error .tooDeep else .ok (.obj [], rest) := by
  simp [Doc.text, readValue_brace, skipSpaces_gap h, show isSpace '}' = false from rfl]

theorem readValue_array {items : Items} (h : items.IsStrict) (depth fuel : Nat)
    (rest : List Char) :
    readValue maxDigits depth (fuel + 1) ((Doc.array items).text ++ rest) =
      if depth = 0 then .error .tooDeep
      else (readItems maxDigits (depth - 1) fuel (skipSpaces (items.text ++ ']' :: rest))).map
        fun (vs, rest) => (.arr vs, rest) := by
  obtain ⟨c, cs, hcs, hc⟩ := Items.skipSpaces_text h (']' :: rest)
  simp [Doc.text, readValue_bracket, hcs, hc]

theorem readValue_object {members : Members} (h : members.IsStrict) (depth fuel : Nat)
    (rest : List Char) :
    readValue maxDigits depth (fuel + 1) ((Doc.object members).text ++ rest) =
      if depth = 0 then .error .tooDeep
      else (readMembers maxDigits (depth - 1) fuel []
          (skipSpaces (members.text ++ '}' :: rest))).map
        fun (members, rest) => (.obj members, rest) := by
  obtain ⟨cs, hcs⟩ := Members.skipSpaces_text h ('}' :: rest)
  simp [Doc.text, readValue_brace, hcs]

/-! ## Items and members -/

section
variable {depth fuel : Nat} {text more rest : List Char} {v : Json} {trail : Gap}

theorem readItems_last (htrail : Gap.IsStrict trail)
    (hread : readValue maxDigits depth fuel text = .ok (v, Gap.text trail ++ ']' :: rest)) :
    readItems maxDigits depth (fuel + 1) text = .ok ([v], rest) := by
  simp [readItems_succ, hread, skipSpaces_gap htrail, show isSpace ']' = false from rfl]

theorem readItems_cons (htrail : Gap.IsStrict trail)
    (hread : readValue maxDigits depth fuel text = .ok (v, Gap.text trail ++ ',' :: more)) :
    readItems maxDigits depth (fuel + 1) text =
      (readItems maxDigits depth fuel (skipSpaces more)).map fun (vs, rest) => (v :: vs, rest) := by
  simp [readItems_succ, hread, skipSpaces_gap htrail, show isSpace ',' = false from rfl]

theorem readValue_of_readItems {r : List Json × List Char}
    (h : readItems maxDigits depth (fuel + 1) text = .ok r) :
    ∃ r, readValue maxDigits depth fuel text = .ok r := by
  cases hread : readValue maxDigits depth fuel text with
  | ok r => exact ⟨r, rfl⟩
  | error e => simp [readItems_succ, hread] at h

variable {key : Quote} {before : List (String × Json)} {pre post : Gap} {d : Doc}

theorem readValue_of_readMembers {r : List (String × Json) × List Char} (hpre : Gap.IsStrict pre)
    (hpost : Gap.IsStrict post)
    (h : readMembers maxDigits depth (fuel + 1) before
        (key.text ++ (Gap.text pre ++ ':' :: (Gap.text post ++ (d.text ++ rest)))) = .ok r) :
    ∃ r, readValue maxDigits depth fuel (d.text ++ rest) = .ok r := by
  cases hread : readValue maxDigits depth fuel (d.text ++ rest) with
  | ok r => exact ⟨r, rfl⟩
  | error e =>
    simp [readMembers_quotation, Quote.text, stringBody_quote, hread, skipSpaces_gap hpre,
      Doc.skipSpaces_text hpost, show isSpace ':' = false from rfl] at h

theorem readMembers_last (hpre : Gap.IsStrict pre) (hpost : Gap.IsStrict post)
    (htrail : Gap.IsStrict trail)
    (hread : readValue maxDigits depth fuel (d.text ++ rest)
      = .ok (v, Gap.text trail ++ '}' :: more)) :
    readMembers maxDigits depth (fuel + 1) before
        (key.text ++ (Gap.text pre ++ ':' :: (Gap.text post ++ (d.text ++ rest))))
      = .ok (insertMember before key.value v, more) := by
  simp [readMembers_quotation, Quote.text, stringBody_quote, hread, skipSpaces_gap hpre,
    Doc.skipSpaces_text hpost, skipSpaces_gap htrail, show isSpace ':' = false from rfl,
    show isSpace '}' = false from rfl]

theorem readMembers_cons (hpre : Gap.IsStrict pre) (hpost : Gap.IsStrict post)
    (htrail : Gap.IsStrict trail)
    (hread : readValue maxDigits depth fuel (d.text ++ rest)
      = .ok (v, Gap.text trail ++ ',' :: more)) :
    readMembers maxDigits depth (fuel + 1) before
        (key.text ++ (Gap.text pre ++ ':' :: (Gap.text post ++ (d.text ++ rest))))
      = readMembers maxDigits depth fuel (insertMember before key.value v) (skipSpaces more) := by
  simp [readMembers_quotation, Quote.text, stringBody_quote, hread, skipSpaces_gap hpre,
    Doc.skipSpaces_text hpost, skipSpaces_gap htrail, show isSpace ':' = false from rfl,
    show isSpace ',' = false from rfl]

end

mutual

theorem Doc.readValue_text {d : Doc} (hstrict : d.IsStrict) {depth fuel : Nat} {rest : List Char}
    (hdepth : d.depth ≤ depth) (hwidth : Admits maxDigits d.width)
    (hfuel : 2 * d.text.length < fuel) (hrest : Stops goesOn rest) :
    readValue maxDigits depth fuel (d.text ++ rest) = .ok (d.value, rest) := by
  obtain ⟨fuel, rfl⟩ : ∃ n, fuel = n + 1 := ⟨fuel - 1, by omega⟩
  cases d with
  | null => exact readValue_null depth fuel rest
  | bool b => exact readValue_bool b depth fuel rest
  | number n =>
    rw [Doc.text, n.readValue_text depth fuel hrest, if_pos]
    · rfl
    · intro hinteger
      rwa [Doc.width, if_pos hinteger] at hwidth
  | string q => exact readValue_quote q depth fuel rest
  | emptyArray gap =>
    rw [readValue_emptyArray hstrict, if_neg (Nat.one_le_iff_ne_zero.1 hdepth)]
    rfl
  | emptyObject gap =>
    rw [readValue_emptyObject hstrict, if_neg (Nat.one_le_iff_ne_zero.1 hdepth)]
    rfl
  | array items =>
    simp only [Doc.depth, Doc.text, List.length_cons, List.length_append] at hdepth hfuel
    rw [readValue_array hstrict, if_neg (by omega),
      Items.readItems_text hstrict (by omega) hwidth (by omega)]
    rfl
  | object members =>
    simp only [Doc.depth, Doc.text, List.length_cons, List.length_append] at hdepth hfuel
    rw [readValue_object hstrict, if_neg (by omega),
      Members.readMembers_text hstrict (by omega) hwidth (by omega)]
    rfl

theorem Items.readItems_text {items : Items} (hstrict : items.IsStrict) {depth fuel : Nat}
    {rest : List Char} (hdepth : items.depth ≤ depth) (hwidth : Admits maxDigits items.width)
    (hfuel : 2 * items.text.length + 1 < fuel) :
    readItems maxDigits depth fuel (skipSpaces (items.text ++ ']' :: rest))
      = .ok (items.values, rest) := by
  obtain ⟨fuel, rfl⟩ : ∃ n, fuel = n + 1 := ⟨fuel - 1, by omega⟩
  cases items with
  | last lead d trail comma =>
    obtain ⟨hlead, hd, htrail, rfl⟩ := hstrict
    simp only [Items.text, List.length_append] at hfuel
    have hlength : 2 * d.text.length < fuel := by omega
    have hread := Doc.readValue_text hd hdepth hwidth hlength
      (stops_gap htrail (show Stops goesOn (']' :: rest) by simp [goesOn]))
    simp only [Items.text, commaText, List.append_nil, List.append_assoc,
      Doc.skipSpaces_text hlead]
    exact readItems_last htrail hread
  | cons lead d trail more =>
    obtain ⟨hlead, hd, htrail, hmore⟩ := hstrict
    simp only [Items.text, List.length_append, List.length_cons] at hfuel
    have hdepths := max_le_iff.1 hdepth
    have hwidths := admits_max.1 hwidth
    have hlength : 2 * d.text.length < fuel := by omega
    have hlengths : 2 * more.text.length + 1 < fuel := by omega
    have hread := Doc.readValue_text hd hdepths.1 hwidths.1 hlength
      (stops_gap htrail (show Stops goesOn (',' :: (more.text ++ ']' :: rest)) by simp [goesOn]))
    simp only [Items.text, List.append_assoc, List.cons_append, Doc.skipSpaces_text hlead]
    rw [readItems_cons htrail hread, Items.readItems_text hmore hdepths.2 hwidths.2 hlengths]
    rfl

theorem Members.readMembers_text {members : Members} (hstrict : members.IsStrict)
    {depth fuel : Nat} {before : List (String × Json)} {rest : List Char}
    (hdepth : members.depth ≤ depth) (hwidth : Admits maxDigits members.width)
    (hfuel : 2 * members.text.length + 1 < fuel) :
    readMembers maxDigits depth fuel before (skipSpaces (members.text ++ '}' :: rest))
      = .ok (members.addTo before, rest) := by
  obtain ⟨fuel, rfl⟩ : ∃ n, fuel = n + 1 := ⟨fuel - 1, by omega⟩
  cases members with
  | last lead key pre post d trail comma =>
    obtain ⟨hlead, hpre, hpost, hd, htrail, rfl⟩ := hstrict
    simp only [Members.text, List.length_append, List.length_cons] at hfuel
    have hlength : 2 * d.text.length < fuel := by omega
    have hread := Doc.readValue_text hd hdepth hwidth hlength
      (stops_gap htrail (show Stops goesOn ('}' :: rest) by simp [goesOn]))
    simp only [Members.text, commaText, List.append_nil, List.append_assoc, List.cons_append,
      skipSpaces_quote hlead]
    exact readMembers_last hpre hpost htrail hread
  | cons lead key pre post d trail more =>
    obtain ⟨hlead, hpre, hpost, hd, htrail, hmore⟩ := hstrict
    simp only [Members.text, List.length_append, List.length_cons] at hfuel
    have hdepths := max_le_iff.1 hdepth
    have hwidths := admits_max.1 hwidth
    have hlength : 2 * d.text.length < fuel := by omega
    have hlengths : 2 * more.text.length + 1 < fuel := by omega
    have hread := Doc.readValue_text hd hdepths.1 hwidths.1 hlength
      (stops_gap htrail (show Stops goesOn (',' :: (more.text ++ '}' :: rest)) by simp [goesOn]))
    simp only [Members.text, List.append_assoc, List.cons_append, skipSpaces_quote hlead]
    rw [readMembers_cons hpre hpost htrail hread]
    exact Members.readMembers_text hmore hdepths.2 hwidths.2 hlengths

end

theorem exists_ok_of_map {ε α β : Type} {x : Except ε α} {f : α → β} {b : β} (h : x.map f = .ok b) :
    ∃ a, x = .ok a := by
  cases x with
  | ok a => exact ⟨a, rfl⟩
  | error e => cases h

mutual

theorem Doc.fits_of_readValue {d : Doc} (hstrict : d.IsStrict) {depth fuel : Nat}
    {rest : List Char} {r : Json × List Char} (hfuel : 2 * d.text.length < fuel)
    (hrest : Stops goesOn rest) (h : readValue maxDigits depth fuel (d.text ++ rest) = .ok r) :
    d.depth ≤ depth ∧ Admits maxDigits d.width := by
  obtain ⟨fuel, rfl⟩ : ∃ n, fuel = n + 1 := ⟨fuel - 1, by omega⟩
  cases d with
  | null => exact ⟨Nat.zero_le _, admits_zero _⟩
  | bool b => exact ⟨Nat.zero_le _, admits_zero _⟩
  | string q => exact ⟨Nat.zero_le _, admits_zero _⟩
  | number n =>
    rw [Doc.text, n.readValue_text depth fuel hrest] at h
    refine ⟨Nat.zero_le _, ?_⟩
    rw [Doc.width]
    split at h
    · next hadmits =>
      split
      · next hinteger => exact hadmits hinteger
      · exact admits_zero _
    · cases h
  | emptyArray gap =>
    rw [readValue_emptyArray hstrict] at h
    split at h
    · cases h
    · next hopen => exact ⟨Nat.one_le_iff_ne_zero.2 hopen, admits_zero _⟩
  | emptyObject gap =>
    rw [readValue_emptyObject hstrict] at h
    split at h
    · cases h
    · next hopen => exact ⟨Nat.one_le_iff_ne_zero.2 hopen, admits_zero _⟩
  | array items =>
    rw [readValue_array hstrict] at h
    split at h
    · cases h
    · next hopen =>
      obtain ⟨_, hread⟩ := exists_ok_of_map h
      simp only [Doc.text, List.length_cons, List.length_append] at hfuel
      have hfits := Items.fits_of_readItems hstrict (by omega) hread
      exact ⟨by rw [Doc.depth]; omega, hfits.2⟩
  | object members =>
    rw [readValue_object hstrict] at h
    split at h
    · cases h
    · next hopen =>
      obtain ⟨_, hread⟩ := exists_ok_of_map h
      simp only [Doc.text, List.length_cons, List.length_append] at hfuel
      have hfits := Members.fits_of_readMembers hstrict (by omega) hread
      exact ⟨by rw [Doc.depth]; omega, hfits.2⟩

theorem Items.fits_of_readItems {items : Items} (hstrict : items.IsStrict) {depth fuel : Nat}
    {rest : List Char} {r : List Json × List Char} (hfuel : 2 * items.text.length + 1 < fuel)
    (h : readItems maxDigits depth fuel (skipSpaces (items.text ++ ']' :: rest)) = .ok r) :
    items.depth ≤ depth ∧ Admits maxDigits items.width := by
  obtain ⟨fuel, rfl⟩ : ∃ n, fuel = n + 1 := ⟨fuel - 1, by omega⟩
  obtain ⟨_, hread⟩ := readValue_of_readItems h
  cases items with
  | last lead d trail comma =>
    obtain ⟨hlead, hd, htrail, rfl⟩ := hstrict
    simp only [Items.text, List.length_append] at hfuel
    simp only [Items.text, commaText, List.append_nil, List.append_assoc,
      Doc.skipSpaces_text hlead] at hread
    exact Doc.fits_of_readValue hd (by omega) (stops_gap htrail (by simp [goesOn])) hread
  | cons lead d trail more =>
    obtain ⟨hlead, hd, htrail, hmore⟩ := hstrict
    simp only [Items.text, List.length_append, List.length_cons] at hfuel
    simp only [Items.text, List.append_assoc, List.cons_append, Doc.skipSpaces_text hlead]
      at h hread
    have hlength : 2 * d.text.length < fuel := by omega
    have hstops : Stops goesOn (Gap.text trail ++ ',' :: (more.text ++ ']' :: rest)) :=
      stops_gap htrail (by simp [goesOn])
    have hfits := Doc.fits_of_readValue hd hlength hstops hread
    rw [readItems_cons htrail (Doc.readValue_text hd hfits.1 hfits.2 hlength hstops)] at h
    obtain ⟨_, hitems⟩ := exists_ok_of_map h
    have hrest := Items.fits_of_readItems hmore (by omega) hitems
    exact ⟨max_le hfits.1 hrest.1, admits_max.2 ⟨hfits.2, hrest.2⟩⟩

theorem Members.fits_of_readMembers {members : Members} (hstrict : members.IsStrict)
    {depth fuel : Nat} {before : List (String × Json)} {rest : List Char}
    {r : List (String × Json) × List Char} (hfuel : 2 * members.text.length + 1 < fuel)
    (h : readMembers maxDigits depth fuel before (skipSpaces (members.text ++ '}' :: rest))
      = .ok r) :
    members.depth ≤ depth ∧ Admits maxDigits members.width := by
  obtain ⟨fuel, rfl⟩ : ∃ n, fuel = n + 1 := ⟨fuel - 1, by omega⟩
  cases members with
  | last lead key pre post d trail comma =>
    obtain ⟨hlead, hpre, hpost, hd, htrail, rfl⟩ := hstrict
    simp only [Members.text, List.length_append, List.length_cons] at hfuel
    simp only [Members.text, commaText, List.append_nil, List.append_assoc, List.cons_append,
      skipSpaces_quote hlead] at h
    obtain ⟨_, hread⟩ := readValue_of_readMembers hpre hpost h
    exact Doc.fits_of_readValue hd (by omega) (stops_gap htrail (by simp [goesOn])) hread
  | cons lead key pre post d trail more =>
    obtain ⟨hlead, hpre, hpost, hd, htrail, hmore⟩ := hstrict
    simp only [Members.text, List.length_append, List.length_cons] at hfuel
    simp only [Members.text, List.append_assoc, List.cons_append, skipSpaces_quote hlead] at h
    obtain ⟨_, hread⟩ := readValue_of_readMembers hpre hpost h
    have hlength : 2 * d.text.length < fuel := by omega
    have hstops : Stops goesOn (Gap.text trail ++ ',' :: (more.text ++ '}' :: rest)) :=
      stops_gap htrail (by simp [goesOn])
    have hfits := Doc.fits_of_readValue hd hlength hstops hread
    rw [readMembers_cons hpre hpost htrail
      (Doc.readValue_text hd hfits.1 hfits.2 hlength hstops)] at h
    have hrest := Members.fits_of_readMembers hmore (by omega) h
    exact ⟨max_le hfits.1 hrest.1, admits_max.2 ⟨hfits.2, hrest.2⟩⟩

end

/-! ## Whole texts -/

namespace Document

theorem readWithin_text {d : Document} (hstrict : d.IsStrict) (limits : Limits) :
    readWithin limits d.text = .ok d.value
      ↔ d.body.depth ≤ limits.depth ∧ Admits limits.digits d.body.width := by
  have hchars : d.chars = Gap.text d.lead ++ (d.body.text ++ (Gap.text d.trail ++ [])) := by
    rw [chars, hstrict.closed]
    rfl
  have hstart : skipSpaces d.chars = d.body.text ++ (Gap.text d.trail ++ []) := by
    rw [hchars, Doc.skipSpaces_text hstrict.lead]
  have hlength : 2 * d.body.text.length < 2 * d.chars.length + 2 := by
    rw [hchars, List.length_append, List.length_append]
    omega
  have hstops := stops_gap hstrict.trail (stops_nil goesOn)
  simp only [readWithin, text, String.toList_ofList, hstart]
  constructor
  · intro h
    split at h
    · cases h
    · next hread => exact Doc.fits_of_readValue hstrict.body hlength hstops hread
  · intro ⟨hdepth, hwidth⟩
    have hend : skipSpaces (Gap.text d.trail ++ []) = [] := skipSpaces_gap hstrict.trail []
    simp only [Doc.readValue_text hstrict.body hdepth hwidth hlength hstops, hend]
    rfl

end Document

end CodeAtlas.Json
