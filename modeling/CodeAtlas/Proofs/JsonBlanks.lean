import CodeAtlas.Inference.Reply
import CodeAtlas.Proofs.JsonComments

/-!
# Blanks in place of control characters

Whatever the reader accepts it also accepts with blanks in place of control characters, and with
other text behind it: the only such characters that it lets pass stand between tokens, apart from
those beyond ASCII, which are left out here (`Clear`).
-/

namespace CodeAtlas.Json

variable {maxDigits : Option Nat}

open Reply (blankControls isControl)

/-! ## Equality of values -/

mutual

theorem beq_iff (a b : Json) : beq a b = true ↔ a = b := by
  cases a with
  | arr as => cases b <;> simp [beq, beqItems_iff as]
  | obj as => cases b <;> simp [beq, beqMembers_iff as]
  | _ => cases b <;> simp [beq]

theorem beqItems_iff (as bs : List Json) : beqItems as bs = true ↔ as = bs := by
  cases as with
  | nil => cases bs <;> simp [beqItems]
  | cons a as => cases bs <;> simp [beqItems, beq_iff a, beqItems_iff as]

theorem beqMembers_iff (as bs : List (String × Json)) : beqMembers as bs = true ↔ as = bs := by
  cases as with
  | nil => cases bs <;> simp [beqMembers]
  | cons a as =>
    obtain ⟨k, a⟩ := a
    cases bs <;> simp [beqMembers, beq_iff a, beqMembers_iff as, Prod.ext_iff]

end

instance : DecidableEq Json :=
  fun a b => decidable_of_iff _ (beq_iff a b)

/-! ## Control characters -/

theorem isControl_iff (c : Char) :
    isControl c = true ↔ c.toNat ≤ 0x1f ∨ 0x7f ≤ c.toNat ∧ c.toNat ≤ 0x9f := by
  unfold isControl
  rw [Bool.or_eq_true, Bool.and_eq_true, decide_eq_true_iff, decide_eq_true_iff, decide_eq_true_iff]
  exact Iff.rfl

def Clear (cs : List Char) : Prop :=
  ∀ c ∈ cs, ¬ (0x7f ≤ c.toNat ∧ c.toNat ≤ 0x9f)

instance (cs : List Char) : Decidable (Clear cs) :=
  List.decidableBAll _ cs

@[simp] theorem clear_append (cs ds : List Char) : Clear (cs ++ ds) ↔ Clear cs ∧ Clear ds := by
  simp only [Clear, List.forall_mem_append]

@[simp] theorem clear_cons (c : Char) (cs : List Char) :
    Clear (c :: cs) ↔ ¬ (0x7f ≤ c.toNat ∧ c.toNat ≤ 0x9f) ∧ Clear cs := by
  simp only [Clear, List.forall_mem_cons]

@[simp] theorem blankControls_append (cs ds : List Char) :
    blankControls (cs ++ ds) = blankControls cs ++ blankControls ds :=
  List.map_append

theorem blankControls_of_le {cs : List Char} (h : ∀ c ∈ cs, 0x20 ≤ c.toNat) (hclear : Clear cs) :
    blankControls cs = cs := by
  refine (List.map_congr_left fun c hc => ?_).trans (List.map_id cs)
  have hcontrol : ¬ isControl c = true := by
    rw [isControl_iff]
    have hle := h c hc
    have hhigh := hclear c hc
    omega
  rw [if_neg hcontrol]
  rfl

theorem blankControls_cons {c : Char} (h : 0x20 ≤ c.toNat ∧ c.toNat < 0x7f) (cs : List Char) :
    blankControls (c :: cs) = c :: blankControls cs := by
  have hcontrol : ¬ isControl c = true := by
    rw [isControl_iff]
    omega
  unfold blankControls
  rw [List.map_cons, if_neg hcontrol]

/-! ## Between tokens -/

def Opens (c : Char) : Prop :=
  0x20 < c.toNat ∧ c.toNat < 0x7f ∧ c ≠ ']' ∧ c ≠ '}'

instance (c : Char) : Decidable (Opens c) :=
  inferInstanceAs (Decidable (_ ∧ _))

theorem isSpace_blankControls {cs : List Char} (h : ∀ c ∈ cs, isSpace c = true) :
    ∀ c ∈ blankControls cs, isSpace c = true := by
  intro c hc
  obtain ⟨b, hb, rfl⟩ := List.mem_map.1 hc
  split
  · rfl
  · exact h b hb

theorem skipSpaces_split (text : List Char) :
    ∃ spaces, text = spaces ++ skipSpaces text ∧ ∀ c ∈ spaces, isSpace c = true := by
  refine ⟨text.takeWhile isSpace, List.takeWhile_append_dropWhile.symm, ?_⟩
  exact List.all_eq_true.1 List.all_takeWhile

theorem skipSpaces_spaces {spaces : List Char} (h : ∀ c ∈ spaces, isSpace c = true)
    (rest : List Char) : skipSpaces (blankControls spaces ++ rest) = skipSpaces rest :=
  List.dropWhile_append_of_pos (isSpace_blankControls h)

theorem isSpace_of_lt {c : Char} (h : 0x20 < c.toNat) : isSpace c = false := by
  have hne : ∀ d : Char, d.toNat ≤ 0x20 → (c == d) = false := by
    intro d hd
    refine beq_eq_false_iff_ne.2 ?_
    rintro rfl
    omega
  unfold isSpace
  rw [hne ' ' (by decide), hne '\t' (by decide), hne '\n' (by decide), hne '\r' (by decide)]
  rfl

theorem stops_spaces {spaces : List Char} (h : ∀ c ∈ spaces, isSpace c = true) {rest : List Char}
    (hrest : Stops goesOn rest) : Stops goesOn (blankControls spaces ++ rest) := by
  have hblank := isSpace_blankControls h
  cases hspaces : blankControls spaces with
  | nil => exact hrest
  | cons c cs =>
    have hc := hblank c (by simp [hspaces])
    unfold isSpace at hc
    simp only [Bool.or_eq_true, beq_iff_eq] at hc
    rw [List.cons_append, stops_cons]
    rcases hc with ((rfl | rfl) | rfl) | rfl <;> rfl

/-! ## Strings -/

theorem escape_mem {e c : Char} (h : simpleEscape? e = some c) : (e, c) ∈ escapes := by
  unfold simpleEscape? at h
  split at h <;> cases h <;> simp [escapes]

theorem hexValue?_between {c : Char} (h : hexValue? c ≠ none) : 0x20 < c.toNat ∧ c.toNat < 0x7f := by
  unfold hexValue? at h
  split at h
  · next hdigit =>
    have hrange : 48 ≤ c.toNat ∧ c.toNat ≤ 57 := Char.isDigit_iff_toNat.1 hdigit
    omega
  · split at h
    · next hlower =>
      simp only [Bool.and_eq_true, decide_eq_true_iff] at hlower
      exact ⟨lt_of_lt_of_le (by decide) (show 'a'.toNat ≤ c.toNat from hlower.1),
        lt_of_le_of_lt (show c.toNat ≤ 'f'.toNat from hlower.2) (by decide)⟩
    · split at h
      · next hupper =>
        simp only [Bool.and_eq_true, decide_eq_true_iff] at hupper
        exact ⟨lt_of_lt_of_le (by decide) (show 'A'.toNat ≤ c.toNat from hupper.1),
          lt_of_le_of_lt (show c.toNat ≤ 'F'.toNat from hupper.2) (by decide)⟩
      · exact absurd rfl h

theorem CodeUnit.mem_text {u : CodeUnit} {c : Char} (h : c ∈ u.text) :
    c = '\\' ∨ c = 'u' ∨ hexValue? c ≠ none := by
  obtain ⟨⟨w, x, y, z⟩, n, hunit⟩ := u
  simp only [hex4?, Option.bind_eq_bind, Option.bind_eq_some_iff] at hunit
  obtain ⟨_, hw, _, hx, _, hy, _, hz, -⟩ := hunit
  simp only [CodeUnit.text, List.mem_cons, List.not_mem_nil, or_false] at h
  rcases h with rfl | rfl | rfl | rfl | rfl | rfl
  · exact .inl rfl
  · exact .inr (.inl rfl)
  · exact .inr (.inr (by simp [hw]))
  · exact .inr (.inr (by simp [hx]))
  · exact .inr (.inr (by simp [hy]))
  · exact .inr (.inr (by simp [hz]))

theorem CodeUnit.le_of_mem {u : CodeUnit} {c : Char} (h : c ∈ u.text) : 0x20 ≤ c.toNat := by
  rcases CodeUnit.mem_text h with rfl | rfl | hhex
  · decide
  · decide
  · exact (hexValue?_between hhex).1.le

/-- What is read up to the closing quote, and that nothing behind it matters. -/
def Notes (text : List Char) (ns : List Nat) (rest : List Char) : Prop :=
  ∃ used, text = used ++ '"' :: rest ∧ (∀ c ∈ used, 0x20 ≤ c.toNat) ∧
    ∀ more, stringPoints (used ++ '"' :: more) = .ok (ns, more)

/-- `part` is the text of one character, or of one code unit. -/
theorem notes_cons (part : List Char) {n : Nat} (hpart : ∀ c ∈ part, 0x20 ≤ c.toNat)
    (hstep : ∀ cs, stringPoints (part ++ cs) = consPoint n (stringPoints cs))
    {more rest : List Char} {ns : List Nat}
    (ih : ∀ ms, stringPoints more = .ok (ms, rest) → Notes more ms rest)
    (h : consPoint n (stringPoints more) = .ok (ns, rest)) : Notes (part ++ more) ns rest := by
  cases hmore : stringPoints more with
  | error e =>
    rw [hmore] at h
    cases h
  | ok r =>
    obtain ⟨ms, after⟩ := r
    rw [hmore, consPoint_ok] at h
    obtain ⟨rfl, rfl⟩ := Prod.mk.inj (Except.ok.inj h)
    obtain ⟨used, rfl, hused, hreads⟩ := ih ms hmore
    refine ⟨part ++ used, (List.append_assoc ..).symm, ?_, fun behind => ?_⟩
    · exact List.forall_mem_append.2 ⟨hpart, hused⟩
    · rw [List.append_assoc, hstep, hreads, consPoint_ok]

theorem notes_of_stringPoints {text rest : List Char} {ns : List Nat}
    (h : stringPoints text = .ok (ns, rest)) : Notes text ns rest := by
  fun_induction stringPoints text generalizing ns with
  | case1 => cases h
  | case2 after =>
    obtain ⟨rfl, rfl⟩ := Prod.mk.inj (Except.ok.inj h)
    exact ⟨[], rfl, by simp, fun _ => rfl⟩
  | case3 a b c d more n hunit ih =>
    let u : CodeUnit := ⟨(a, b, c, d), n, hunit⟩
    exact notes_cons u.text (fun _ => CodeUnit.le_of_mem (u := u)) (stringPoints_unit u) (fun _ => ih) h
  | case4 => cases h
  | case5 e more _ c hescape ih =>
    have hmem := escape_mem hescape
    have hall : ∀ x ∈ escapes, 0x20 ≤ x.1.toNat := by decide
    refine notes_cons ['\\', e] ?_ (stringPoints_escape hmem) (fun _ => ih) h
    simp only [List.mem_cons, List.not_mem_nil, or_false, forall_eq_or_imp, forall_eq]
    exact ⟨by decide, hall _ hmem⟩
  | case6 => cases h
  | case7 => cases h
  | case8 c more hquote _ _ hplain ih =>
    simp only [Bool.or_eq_true, beq_iff_eq, decide_eq_true_iff, not_or, UInt32.lt_iff_toNat_lt] at hplain
    have hle : 0x20 ≤ c.toNat := Nat.not_lt.1 hplain.2
    exact notes_cons [c] (by simpa using hle) (stringPoints_plain ⟨hquote, hplain.1, hle⟩)
      (fun _ => ih) h

theorem stringBody_taken {text rest : List Char} {s : String} (h : stringBody text = .ok (s, rest)) :
    ∃ used, text = used ++ '"' :: rest ∧ (∀ c ∈ used, 0x20 ≤ c.toNat) ∧
      ∀ more, stringBody (used ++ '"' :: more) = .ok (s, more) := by
  unfold stringBody at h
  cases hpoints : stringPoints text with
  | error e =>
    rw [hpoints] at h
    cases h
  | ok r =>
    obtain ⟨ns, after⟩ := r
    rw [hpoints] at h
    obtain ⟨rfl, rfl⟩ := Prod.mk.inj (Except.ok.inj h)
    obtain ⟨used, htext, hused, hreads⟩ := notes_of_stringPoints hpoints
    refine ⟨used, htext, hused, fun more => ?_⟩
    rw [stringBody, hreads]
    rfl

/-! ## Numbers -/

theorem span_taken {p : Char → Bool} {text x rest : List Char} (h : text.span p = (x, rest)) :
    text = x ++ rest ∧ ∀ c ∈ x, p c = true := by
  rw [List.span_eq_takeWhile_dropWhile] at h
  obtain ⟨rfl, rfl⟩ := Prod.mk.inj h
  exact ⟨List.takeWhile_append_dropWhile.symm, List.all_eq_true.1 List.all_takeWhile⟩

theorem integerDigits_taken {text whole rest : List Char} (h : integerDigits text = some (whole, rest)) :
    text = whole ++ rest ∧ whole ≠ [] ∧ (whole = ['0'] ∨ whole.head? ≠ some '0') ∧
      ∀ c ∈ whole, c.isDigit = true := by
  unfold integerDigits at h
  split at h
  · obtain ⟨rfl, rfl⟩ := Prod.mk.inj (Option.some.inj h)
    exact ⟨rfl, by simp, .inl rfl, by simp⟩
  · next text hzero =>
    split at h
    · cases h
    · next ds after hne hspan =>
      obtain ⟨rfl, rfl⟩ := Prod.mk.inj (Option.some.inj h)
      obtain ⟨htext, hdigits⟩ := span_taken hspan
      refine ⟨htext, hne, .inr fun hhead => ?_, hdigits⟩
      obtain ⟨more, rfl⟩ := List.head?_eq_some_iff.1 hhead
      exact hzero (more ++ after) htext

def pointText : List Char → List Char
  | [] => []
  | ds => '.' :: ds

theorem fraction_taken {text places rest : List Char} (h : fraction text = (places, rest)) :
    text = pointText places ++ rest ∧ ∀ c ∈ places, c.isDigit = true := by
  unfold fraction at h
  split at h
  · next more =>
    split at h
    · obtain ⟨rfl, rfl⟩ := Prod.mk.inj h
      exact ⟨rfl, by simp⟩
    · next ds after hne hspan =>
      obtain ⟨rfl, rfl⟩ := Prod.mk.inj h
      obtain ⟨rfl, hdigits⟩ := span_taken hspan
      obtain ⟨d, ds, rfl⟩ := List.exists_cons_of_ne_nil hne
      exact ⟨rfl, hdigits⟩
  · obtain ⟨rfl, rfl⟩ := Prod.mk.inj h
    exact ⟨rfl, by simp⟩

theorem digits_taken {negative : Bool} {text rest : List Char} {n : Int}
    (h : (match text.span Char.isDigit with
      | ([], _) => none
      | (ds, rest) => some (if negative then -(digitsValue ds : Int) else digitsValue ds, rest))
      = some (n, rest)) :
    ∃ ds, text = ds ++ rest ∧ ds ≠ [] ∧ (∀ c ∈ ds, c.isDigit = true) ∧
      n = if negative then -(Nat.ofDigitChars 10 ds 0 : Int) else Nat.ofDigitChars 10 ds 0 := by
  split at h
  · cases h
  · next ds after hne hspan =>
    obtain ⟨rfl, rfl⟩ := Prod.mk.inj (Option.some.inj h)
    obtain ⟨htext, hdigits⟩ := span_taken hspan
    exact ⟨ds, htext, hne, hdigits, by rw [digitsValue_eq]⟩

theorem exponent_of_signedDigits {mark : Char} (hmark : mark = 'e' ∨ mark = 'E') {text rest : List Char}
    {n : Int} (h : signedDigits text = some (n, rest)) :
    ∃ e : Exponent, mark :: text = e.text ++ rest ∧ e.value = n := by
  unfold signedDigits at h
  split at h
  · next negative digits hsign =>
    obtain ⟨ds, rfl, hne, hdigits, rfl⟩ := digits_taken h
    split at hsign
    · obtain ⟨rfl, rfl⟩ := Prod.mk.inj hsign
      exact ⟨⟨mark, hmark, some true, ds, hne, hdigits⟩, rfl, rfl⟩
    · obtain ⟨rfl, rfl⟩ := Prod.mk.inj hsign
      exact ⟨⟨mark, hmark, some false, ds, hne, hdigits⟩, rfl, rfl⟩
    · obtain ⟨rfl, rfl⟩ := Prod.mk.inj hsign
      exact ⟨⟨mark, hmark, none, ds, hne, hdigits⟩, rfl, rfl⟩

def powerText : Option Exponent → List Char
  | none => []
  | some e => e.text

theorem exponentPart_taken {text rest : List Char} {power : Option Int}
    (h : exponentPart text = (power, rest)) :
    ∃ e : Option Exponent, text = powerText e ++ rest ∧ e.map Exponent.value = power := by
  unfold exponentPart at h
  split at h
  · next mark more =>
    split at h
    · next hmark =>
      simp only [Bool.or_eq_true, beq_iff_eq] at hmark
      split at h
      · next n after hdigits =>
        obtain ⟨rfl, rfl⟩ := Prod.mk.inj h
        obtain ⟨e, htext, rfl⟩ := exponent_of_signedDigits hmark hdigits
        exact ⟨some e, htext, rfl⟩
      · obtain ⟨rfl, rfl⟩ := Prod.mk.inj h
        exact ⟨none, rfl, rfl⟩
    · obtain ⟨rfl, rfl⟩ := Prod.mk.inj h
      exact ⟨none, rfl, rfl⟩
  · obtain ⟨rfl, rfl⟩ := Prod.mk.inj h
    exact ⟨none, rfl, rfl⟩

theorem numeral_of_unsignedNumber {negative : Bool} {text rest : List Char} {v : Json}
    (h : unsignedNumber maxDigits negative text = .ok (v, rest)) :
    ∃ n : Numeral, n.negative = negative ∧ text = n.sizeText ++ rest ∧ n.value = v ∧
      (n.isInteger = true → Admits maxDigits n.whole.length) := by
  unfold unsignedNumber at h
  split at h
  · cases h
  · next whole afterWhole hwhole =>
    obtain ⟨rfl, hne, hleading, hdigits⟩ := integerDigits_taken hwhole
    cases hplaces : fraction afterWhole with
    | mk places afterPoint =>
    cases hpower : exponentPart afterPoint with
    | mk power afterPower =>
    obtain ⟨rfl, hplaceDigits⟩ := fraction_taken hplaces
    obtain ⟨e, rfl, rfl⟩ := exponentPart_taken hpower
    let n : Numeral := ⟨negative, whole, hne, hleading, places, by
      simpa [or_imp, forall_and] using ⟨hdigits, hplaceDigits⟩, e⟩
    have hsize : n.sizeText = whole ++ (pointText places ++ powerText e) := rfl
    have hinteger : n.isInteger = (places.isEmpty && (e.map Exponent.value).isNone) := by
      simp [n, Numeral.isInteger]
    simp only [hplaces, hpower, ← hinteger] at h
    split at h
    · next hyes =>
      split at h
      · next hadmits =>
        obtain ⟨rfl, rfl⟩ := Prod.mk.inj (Except.ok.inj h)
        refine ⟨n, rfl, ?_, ?_, fun _ => hadmits⟩
        · have hempty : places = [] ∧ e = none := by simpa [n, Numeral.isInteger] using hyes
          rw [hsize, hempty.1, hempty.2]
          simp [pointText, powerText]
        · rw [Numeral.value, if_pos hyes, digitsValue_eq]
      · cases h
    · next hno =>
      obtain ⟨rfl, rfl⟩ := Prod.mk.inj (Except.ok.inj h)
      refine ⟨n, rfl, ?_, ?_, fun hyes => absurd hyes hno⟩
      · rw [hsize]
        simp
      · rw [Numeral.value, if_neg hno, digitsValue_eq]
        rfl

/-! ## Values -/

/-- The text is read in the same way with blanks in it, as long as there is fuel for it and nothing
follows that could belong to a number. -/
def ReadsAlike {α : Type} (read : Nat → List Char → ReadResult α) (used : List Char) (a : α) : Prop :=
  Clear used → ∀ fuel rest, 2 * used.length ≤ fuel → Stops goesOn rest →
    read fuel (blankControls used ++ rest) = .ok (a, rest)

/-- The reader takes a part of this shape from the text, and any text that starts with this part is
read alike. -/
def Takes {α : Type} (read : Nat → List Char → ReadResult α) (shape : List Char → Prop)
    (text rest : List Char) (a : α) : Prop :=
  ∃ c cs, text = (c :: cs) ++ rest ∧ Opens c ∧ shape (c :: cs) ∧ ReadsAlike read (c :: cs) a

def Between (opening close : Char) (cs : List Char) : Prop :=
  ∃ inner, cs = opening :: (inner ++ [close])

def EndsWith (close : Char) (cs : List Char) : Prop :=
  ∃ front, cs = front ++ [close]

def ValueShape (v : Json) (cs : List Char) : Prop :=
  (∃ members, v = obj members) → Between '{' '}' cs

theorem Takes.imp {α : Type} {read : Nat → List Char → ReadResult α} {shape shape' : List Char → Prop}
    {text rest : List Char} {a : α} (h : Takes read shape text rest a)
    (hshape : ∀ cs, shape cs → shape' cs) : Takes read shape' text rest a := by
  obtain ⟨c, cs, htext, hc, hcs, hread⟩ := h
  exact ⟨c, cs, htext, hc, hshape _ hcs, hread⟩

theorem Takes.map {α β : Type} {read : Nat → List Char → ReadResult α} {shape : List Char → Prop}
    {text rest : List Char} {a : α} (h : Takes read shape text rest a) (f : α → β) :
    Takes (fun fuel cs => (read fuel cs).map fun (a, rest) => (f a, rest)) shape text rest (f a) := by
  obtain ⟨c, cs, htext, hc, hcs, hread⟩ := h
  refine ⟨c, cs, htext, hc, hcs, ?_⟩
  intro hclear fuel more hfuel hmore
  simp only [hread hclear fuel more hfuel hmore]
  rfl

theorem skipSpaces_blanked {spaces : List Char} (h : ∀ c ∈ spaces, isSpace c = true) {c : Char}
    (hc : 0x20 < c.toNat ∧ c.toNat < 0x7f) (cs rest : List Char) :
    skipSpaces (blankControls spaces ++ c :: (blankControls cs ++ rest))
      = c :: (blankControls cs ++ rest) := by
  rw [skipSpaces_spaces h, skipSpaces_cons (isSpace_of_lt hc.1)]

theorem Opens.inner {c : Char} (h : Opens c) : 0x20 < c.toNat ∧ c.toNat < 0x7f :=
  ⟨h.1, h.2.1⟩

theorem Opens.blankControls {c : Char} (h : Opens c) (cs : List Char) :
    blankControls (c :: cs) = c :: blankControls cs :=
  blankControls_cons ⟨h.1.le, h.2.1⟩ cs

theorem Opens.clear {c : Char} (h : Opens c) {cs : List Char} (hcs : Clear cs) : Clear (c :: cs) := by
  rw [clear_cons]
  refine ⟨fun hhigh => ?_, hcs⟩
  have hlow := h.2.1
  omega

theorem ReadsAlike.opened {α : Type} {read : Nat → List Char → ReadResult α} {c : Char} {cs : List Char}
    {a : α} (h : ReadsAlike read (c :: cs) a) (hc : Opens c) (hclear : Clear cs) {fuel : Nat}
    (hfuel : 2 * (cs.length + 1) ≤ fuel) {rest : List Char} (hrest : Stops goesOn rest) :
    read fuel (c :: (blankControls cs ++ rest)) = .ok (a, rest) := by
  have hread := h (hc.clear hclear) fuel rest hfuel hrest
  rwa [hc.blankControls, List.cons_append] at hread

theorem exists_succ_of_le {used : List Char} {c : Char} {cs : List Char} (hused : used = c :: cs)
    {fuel : Nat} (h : 2 * used.length ≤ fuel) : ∃ n, fuel = n + 1 := by
  refine ⟨fuel - 1, ?_⟩
  rw [hused, List.length_cons] at h
  omega

theorem takes_string {depth fuel : Nat} {text rest : List Char} {v : Json}
    (h : readValue maxDigits depth (fuel + 1) ('"' :: text) = .ok (v, rest)) :
    Takes (readValue maxDigits depth) (ValueShape v) ('"' :: text) rest v := by
  rw [readValue_quotation] at h
  obtain ⟨⟨s, after⟩, hbody⟩ := exists_ok_of_map h
  rw [hbody] at h
  obtain ⟨rfl, rfl⟩ := Prod.mk.inj (Except.ok.inj h)
  obtain ⟨used, rfl, hle, hread⟩ := stringBody_taken hbody
  refine ⟨'"', used ++ ['"'], by simp, by decide, by simp [ValueShape], ?_⟩
  intro hclear fuel more hfuel _
  obtain ⟨n, rfl⟩ := exists_succ_of_le rfl hfuel
  have hsame : blankControls ('"' :: (used ++ ['"'])) = '"' :: (used ++ ['"']) := by
    refine blankControls_of_le ?_ hclear
    simpa [or_imp, forall_and] using hle
  rw [hsame, List.cons_append, List.append_assoc, readValue_quotation, List.singleton_append, hread]
  rfl

theorem Numeral.between {n : Numeral} {c : Char} (h : c ∈ n.text) : 0x20 < c.toNat ∧ c.toNat < 0x7f := by
  rcases Numeral.mem_text h with hdigit | hmark
  · have hrange : 48 ≤ c.toNat ∧ c.toNat ≤ 57 := Char.isDigit_iff_toNat.1 hdigit
    omega
  · have hall : ∀ d ∈ ['-', '+', '.', 'e', 'E'], 0x20 < d.toNat ∧ d.toNat < 0x7f := by simp
    exact hall c hmark

theorem takes_number (n : Numeral) (hfits : n.isInteger = true → Admits maxDigits n.whole.length)
    (depth : Nat) (rest : List Char) :
    Takes (readValue maxDigits depth) (ValueShape n.value) (n.text ++ rest) rest n.value := by
  obtain ⟨c, cs, htext, hother⟩ : ∃ c cs, n.text = c :: cs ∧ c ≠ ']' ∧ c ≠ '}' := by
    obtain ⟨d, ds, hds, hd⟩ := n.starts
    unfold Numeral.text
    split
    · exact ⟨'-', n.sizeText, rfl, by decide, by decide⟩
    · exact ⟨d, ds, hds, ne_of_isDigit hd rfl, ne_of_isDigit hd rfl⟩
  have hc := Numeral.between (n := n) (c := c) (by simp [htext])
  have hshape : ∀ members, n.value ≠ obj members := by
    intro members
    unfold Numeral.value
    split <;> simp
  refine ⟨c, cs, by rw [htext], ⟨hc.1, hc.2, hother⟩, fun ⟨members, h⟩ => absurd h (hshape members), ?_⟩
  intro hclear fuel more hfuel hmore
  obtain ⟨k, rfl⟩ := exists_succ_of_le rfl hfuel
  rw [← htext] at hclear ⊢
  rw [blankControls_of_le (fun c hc => (Numeral.between hc).1.le) hclear, n.readValue_text depth k hmore,
    if_pos hfits]

def words : List (String × Json) :=
  [("null", null), ("true", bool true), ("false", bool false), ("NaN", real .notANumber),
   ("Infinity", real (.infinite false)), ("-Infinity", real (.infinite true))]

theorem keyword?_taken {text rest : List Char} {v : Json} (h : keyword? text = some (v, rest)) :
    ∃ w, (w, v) ∈ words ∧ text = w.toList ++ rest := by
  obtain ⟨⟨w, u⟩, hfind, heq⟩ := Option.map_eq_some_iff.1 h
  obtain ⟨rfl, rfl⟩ := Prod.mk.inj heq
  have hpre := List.find?_some hfind
  obtain ⟨more, rfl⟩ := List.isPrefixOf_iff_prefix.1 hpre
  refine ⟨w, List.mem_of_find?_eq_some hfind, ?_⟩
  rw [← String.length_toList, List.drop_left]

theorem readValue_word {w : String} {v : Json} (h : (w, v) ∈ words) (depth fuel : Nat)
    (rest : List Char) :
    readValue maxDigits depth (fuel + 1) (w.toList ++ rest) = .ok (v, rest) := by
  have hlength : "null".length = 4 ∧ "true".length = 4 ∧ "false".length = 5 ∧ "NaN".length = 3 ∧
    "Infinity".length = 8 ∧ "-Infinity".length = 9 := by decide
  simp only [words, List.mem_cons, Prod.mk.injEq, List.not_mem_nil, or_false] at h
  rcases h with ⟨rfl, rfl⟩ | ⟨rfl, rfl⟩ | ⟨rfl, rfl⟩ | ⟨rfl, rfl⟩ | ⟨rfl, rfl⟩ | ⟨rfl, rfl⟩ <;>
    simp [readValue_other, keyword?, List.isPrefixOf, hlength]

theorem takes_word {w : String} {v : Json} (h : (w, v) ∈ words) (depth : Nat) (rest : List Char) :
    Takes (readValue maxDigits depth) (ValueShape v) (w.toList ++ rest) rest v := by
  have hshape : ∀ x ∈ words, x.1.toList ≠ [] ∧
      ∀ c ∈ x.1.toList, 0x20 < c.toNat ∧ c.toNat < 0x7f ∧ c ≠ ']' ∧ c ≠ '}' := by simp [words]
  obtain ⟨hne, hchars⟩ := hshape _ h
  obtain ⟨c, cs, htext⟩ := List.exists_cons_of_ne_nil hne
  refine ⟨c, cs, by rw [htext], hchars c (by simp [htext]), ?_, ?_⟩
  · rintro ⟨members, rfl⟩
    simp [words] at h
  intro hclear fuel more hfuel _
  obtain ⟨k, rfl⟩ := exists_succ_of_le rfl hfuel
  rw [← htext] at hclear ⊢
  rw [blankControls_of_le (fun c hc => (hchars c hc).1.le) hclear]
  exact readValue_word h depth k more

theorem takes_other {depth fuel : Nat} {c : Char} {cs rest : List Char} {v : Json}
    (hc : c ≠ '"' ∧ c ≠ '[' ∧ c ≠ '{')
    (h : readValue maxDigits depth (fuel + 1) (c :: cs) = .ok (v, rest)) :
    Takes (readValue maxDigits depth) (ValueShape v) (c :: cs) rest v := by
  rw [readValue_other depth fuel cs hc] at h
  cases hword : keyword? (c :: cs) with
  | some r =>
    obtain ⟨u, after⟩ := r
    rw [hword] at h
    obtain ⟨rfl, rfl⟩ := Prod.mk.inj (Except.ok.inj h)
    obtain ⟨w, hw, htext⟩ := keyword?_taken hword
    rw [htext]
    exact takes_word hw depth after
  | none =>
    simp only [hword] at h
    split at h
    · next hminus =>
      obtain ⟨n, hnegative, rfl, rfl, hfits⟩ := numeral_of_unsignedNumber h
      have htext : c :: (n.sizeText ++ rest) = n.text ++ rest := by
        rw [hminus, Numeral.text, hnegative]
        rfl
      rw [htext]
      exact takes_number n hfits depth rest
    · obtain ⟨n, hnegative, htext, rfl, hfits⟩ := numeral_of_unsignedNumber h
      have hplain : n.text = n.sizeText := by
        rw [Numeral.text, hnegative]
        rfl
      rw [htext, ← hplain]
      exact takes_number n hfits depth rest

/-! ## Arrays and objects -/

section
variable {depth fuel : Nat} {text rest : List Char} {v : Json}

/-- How arrays and objects are read, with what is read up to the closing mark as a parameter. -/
def Encloses {α : Type} (maxDigits : Option Nat) (depth : Nat) (opening close : Char) (empty : Json)
    (wrap : α → Json)
    (inner : Nat → List Char → ReadResult α) : Prop :=
  ∀ fuel text, readValue maxDigits depth (fuel + 1) (opening :: text) =
    if depth = 0 then .error .tooDeep
    else if (skipSpaces text).head? = some close then .ok (empty, (skipSpaces text).tail)
    else (inner fuel (skipSpaces text)).map fun (a, rest) => (wrap a, rest)

theorem encloses_items (depth : Nat) :
    Encloses maxDigits depth '[' ']' (arr []) arr (readItems maxDigits (depth - 1)) := by
  intro fuel text
  rw [readValue_bracket]
  simp only [beq_iff_eq]
  split
  · rfl
  · split
    · next heq => simp [heq]
    · next hother =>
      rw [if_neg]
      intro hhead
      obtain ⟨cs, hcs⟩ := List.head?_eq_some_iff.1 hhead
      exact hother cs hcs

theorem encloses_members (depth : Nat) :
    Encloses maxDigits depth '{' '}' (obj []) obj
      (readMembers maxDigits (depth - 1) · []) := by
  intro fuel text
  rw [readValue_brace]
  simp only [beq_iff_eq]
  split
  · rfl
  · split
    · next heq => simp [heq]
    · next hother =>
      rw [if_neg]
      intro hhead
      obtain ⟨cs, hcs⟩ := List.head?_eq_some_iff.1 hhead
      exact hother cs hcs

theorem takes_enclosed {α : Type} {opening close : Char} (hopens : Opens opening)
    (hclose : close = ']' ∨ close = '}') {empty : Json} {wrap : α → Json}
    {inner : Nat → List Char → ReadResult α}
    (hshape : Encloses maxDigits depth opening close empty wrap inner)
    (ih : ∀ {text rest : List Char} {a : α}, inner fuel text = .ok (a, rest) →
      Takes inner (EndsWith close) text rest a)
    (h : readValue maxDigits depth (fuel + 1) (opening :: text) = .ok (v, rest)) :
    (v = empty ∨ ∃ a, v = wrap a) ∧
      Takes (readValue maxDigits depth) (Between opening close) (opening :: text) rest v := by
  rw [hshape] at h
  obtain ⟨spaces, hsplit, hspaces⟩ := skipSpaces_split text
  split at h
  · cases h
  · next hdepth =>
    split at h
    · next hempty =>
      obtain ⟨rfl, rfl⟩ := Prod.mk.inj (Except.ok.inj h)
      obtain ⟨after, hafter⟩ := List.head?_eq_some_iff.1 hempty
      have hrange : 0x20 < close.toNat ∧ close.toNat < 0x7f := by
        rcases hclose with rfl | rfl <;> decide
      rw [hafter] at hsplit ⊢
      refine ⟨.inl rfl, opening, spaces ++ [close], by rw [hsplit]; simp, hopens, ⟨spaces, rfl⟩, ?_⟩
      intro _ n more hn _
      obtain ⟨k, rfl⟩ := exists_succ_of_le rfl hn
      rw [hopens.blankControls, blankControls_append, blankControls_cons ⟨hrange.1.le, hrange.2⟩,
        List.cons_append, List.append_assoc, List.cons_append, hshape, if_neg hdepth,
        skipSpaces_blanked hspaces hrange]
      rw [List.head?_cons, if_pos rfl]
      rfl
    · obtain ⟨⟨a, after⟩, hinner⟩ := exists_ok_of_map h
      rw [hinner] at h
      obtain ⟨rfl, rfl⟩ := Prod.mk.inj (Except.ok.inj h)
      obtain ⟨c, cs, htext, hc, ⟨front, hfront⟩, hread⟩ := ih hinner
      have hother : c ≠ close := by
        rcases hclose with rfl | rfl
        · exact hc.2.2.1
        · exact hc.2.2.2
      refine ⟨.inr ⟨a, rfl⟩, opening, spaces ++ c :: cs, ?_, hopens, ⟨spaces ++ front, ?_⟩, ?_⟩
      · rw [hsplit, htext]
        simp
      · rw [hfront, List.append_assoc]
      intro hclear n more hn hmore
      obtain ⟨k, rfl⟩ := exists_succ_of_le rfl hn
      simp only [clear_cons, clear_append] at hclear
      simp only [List.length_cons, List.length_append] at hn
      rw [hopens.blankControls, blankControls_append, hc.blankControls, List.cons_append, hshape,
        if_neg hdepth, List.append_assoc, List.cons_append, skipSpaces_blanked hspaces hc.inner,
        hread.opened hc hclear.2.2.2 (by omega) hmore, List.head?_cons, if_neg (by simpa using hother)]
      rfl

/-- What stands between a value and the next one, or the closing mark. -/
theorem skipSpaces_mark {after more : List Char} {mark : Char} (h : skipSpaces after = mark :: more)
    (hmark : 0x20 < mark.toNat ∧ mark.toNat < 0x7f) (hstop : goesOn mark = false) :
    ∃ spaces, after = spaces ++ mark :: more ∧ ∀ cs,
      skipSpaces (blankControls spaces ++ mark :: cs) = mark :: cs ∧
      Stops goesOn (blankControls spaces ++ mark :: cs) := by
  obtain ⟨spaces, hsplit, hspaces⟩ := skipSpaces_split after
  rw [h] at hsplit
  refine ⟨spaces, hsplit, fun cs => ⟨?_, stops_spaces hspaces (by simpa using hstop)⟩⟩
  rw [skipSpaces_spaces hspaces, skipSpaces_cons (isSpace_of_lt hmark.1)]

def continued {α : Type} (close : Char) (done : α) (next : List Char → ReadResult α)
    (text : List Char) : ReadResult α :=
  match skipSpaces text with
  | [] => .error .malformed
  | mark :: more =>
    if mark = ',' then next (skipSpaces more)
    else if mark = close then .ok (done, more)
    else .error .malformed

theorem eq_continued {α : Type} {close : Char} (hclose : close ≠ ',') {done : α}
    {next : List Char → ReadResult α} {text : List Char} {r : ReadResult α}
    (hnext : ∀ more, skipSpaces text = ',' :: more → r = next (skipSpaces more))
    (hdone : ∀ more, skipSpaces text = close :: more → r = .ok (done, more))
    (hother : (∀ more, skipSpaces text ≠ ',' :: more) → (∀ more, skipSpaces text ≠ close :: more) →
      r = .error .malformed) : r = continued close done next text := by
  unfold continued
  cases htext : skipSpaces text with
  | nil => exact hother (by simp [htext]) (by simp [htext])
  | cons mark more =>
    dsimp only
    split
    · next hcomma =>
      subst hcomma
      exact hnext more htext
    · next hcomma =>
      split
      · next hend =>
        subst hend
        exact hdone more htext
      · next hend => exact hother (by simp [htext, hcomma]) (by simp [htext, hend])

theorem readItems_continued : readItems maxDigits depth (fuel + 1) text =
    match readValue maxDigits depth fuel text with
    | .error e => .error e
    | .ok (v, rest) =>
      continued ']' [v]
        (fun cs => (readItems maxDigits depth fuel cs).map fun (vs, rest) => (v :: vs, rest)) rest := by
  rw [readItems_succ]
  cases readValue maxDigits depth fuel text with
  | error e => rfl
  | ok r =>
    obtain ⟨v, rest⟩ := r
    refine eq_continued (show ']' ≠ ',' by decide) ?_ ?_ ?_
    · intro more hmark
      simp only [hmark]
    · intro more hmark
      simp only [hmark]
    · intro hcomma hclose
      dsimp only
      split
      · next more hmark => exact absurd hmark (hcomma more)
      · next more hmark => exact absurd hmark (hclose more)
      · rfl

theorem readMembers_continued {before : List (String × Json)} :
    readMembers maxDigits depth (fuel + 1) before ('"' :: text) =
    match stringBody text with
    | .error e => .error e
    | .ok (key, rest) =>
      match skipSpaces rest with
      | ':' :: rest =>
        match readValue maxDigits depth fuel (skipSpaces rest) with
        | .error e => .error e
        | .ok (v, rest) =>
          continued '}' (insertMember before key v)
            (readMembers maxDigits depth fuel (insertMember before key v)) rest
      | _ => .error .malformed := by
  rw [readMembers_quotation]
  cases stringBody text with
  | error e => rfl
  | ok r =>
    obtain ⟨key, rest⟩ := r
    dsimp only
    cases skipSpaces rest with
    | nil => rfl
    | cons c afterColon =>
      by_cases hcolon : c = ':'
      · subst hcolon
        simp only
        cases readValue maxDigits depth fuel (skipSpaces afterColon) with
        | error e => rfl
        | ok r =>
          obtain ⟨v, rest⟩ := r
          refine eq_continued (show '}' ≠ ',' by decide) ?_ ?_ ?_
          · intro more hmark
            simp only [hmark]
          · intro more hmark
            simp only [hmark]
          · intro hcomma hclose
            dsimp only
            split
            · next more hmark => exact absurd hmark (hcomma more)
            · next more hmark => exact absurd hmark (hclose more)
            · rfl
      · simp [hcolon]

/-- The loop over elements: `cs` is the text of one of them, and `next` reads those behind it. -/
theorem takes_continued {α : Type} {close : Char} (hclose : close = ']' ∨ close = '}')
    {read : Nat → List Char → ReadResult α} (next : Nat → List Char → ReadResult α) {done a : α} {c : Char}
    {cs after : List Char} (hc : Opens c)
    (hstep : Clear cs → ∀ k more, 2 * (cs.length + 1) ≤ k → Stops goesOn more →
      read (k + 1) (c :: (blankControls cs ++ more)) = continued close done (next k) more)
    (ih : ∀ {text rest : List Char} {a : α}, next fuel text = .ok (a, rest) →
      Takes next (EndsWith close) text rest a)
    (h : continued close done (next fuel) after = .ok (a, rest)) :
    Takes read (EndsWith close) (c :: (cs ++ after)) rest a := by
  have hrange : 0x20 < close.toNat ∧ close.toNat < 0x7f := by
    rcases hclose with rfl | rfl <;> decide
  have hstop : goesOn close = false := by
    rcases hclose with rfl | rfl <;> decide
  unfold continued at h
  split at h
  · cases h
  next mark more hmark =>
  split at h
  · next hcomma =>
    subst hcomma
    obtain ⟨d, ds, htext, hd, ⟨front, hfront⟩, hreads⟩ := ih h
    obtain ⟨gap, rfl, hgap⟩ := skipSpaces_mark hmark (by decide) (by decide)
    obtain ⟨spaces, hsplit, hspaces⟩ := skipSpaces_split more
    refine ⟨c, cs ++ (gap ++ ',' :: (spaces ++ d :: ds)), ?_, hc,
      ⟨c :: (cs ++ (gap ++ ',' :: (spaces ++ front))), ?_⟩, ?_⟩
    · rw [hsplit, htext]
      simp
    · rw [hfront]
      simp
    intro hclear n after hn hafter
    obtain ⟨k, rfl⟩ := exists_succ_of_le rfl hn
    simp only [clear_cons, clear_append] at hclear
    obtain ⟨-, hcs, -, -, -, -, hds⟩ := hclear
    simp only [List.length_cons, List.length_append] at hn
    obtain ⟨hskip, hstops⟩ := hgap (blankControls spaces ++ d :: (blankControls ds ++ after))
    simp only [hc.blankControls, blankControls_append, hd.blankControls, List.cons_append, List.append_assoc,
      blankControls_cons (show 0x20 ≤ ','.toNat ∧ ','.toNat < 0x7f by decide)]
    rw [hstep hcs k _ (by omega) hstops, continued, hskip]
    simp only [if_true, skipSpaces_blanked hspaces hd.inner]
    exact hreads.opened hd hds (by omega) hafter
  · next hcomma =>
    split at h
    · next hend =>
      subst hend
      obtain ⟨rfl, rfl⟩ := Prod.mk.inj (Except.ok.inj h)
      obtain ⟨gap, rfl, hgap⟩ := skipSpaces_mark hmark hrange hstop
      refine ⟨c, cs ++ (gap ++ [mark]), by simp, hc, ⟨c :: (cs ++ gap), by simp⟩, ?_⟩
      intro hclear n after hn _
      obtain ⟨k, rfl⟩ := exists_succ_of_le rfl hn
      simp only [clear_cons, clear_append] at hclear
      simp only [List.length_cons, List.length_append] at hn
      obtain ⟨hskip, hstops⟩ := hgap after
      have hend : blankControls [mark] = [mark] := blankControls_cons ⟨hrange.1.le, hrange.2⟩ []
      rw [hc.blankControls, blankControls_append, blankControls_append, hend, List.cons_append,
        List.append_assoc, List.append_assoc, List.singleton_append, hstep hclear.2.1 k _ (by omega) hstops,
        continued, hskip]
      simp only [hcomma, if_false, if_true]
    · cases h

theorem takes_items {vs : List Json}
    (ihv : ∀ {text rest : List Char} {v : Json},
      readValue maxDigits depth fuel text = .ok (v, rest) →
      Takes (readValue maxDigits depth) (ValueShape v) text rest v)
    (ih : ∀ {text rest : List Char} {vs : List Json},
      readItems maxDigits depth fuel text = .ok (vs, rest) →
      Takes (readItems maxDigits depth) (EndsWith ']') text rest vs)
    (h : readItems maxDigits depth (fuel + 1) text = .ok (vs, rest)) :
    Takes (readItems maxDigits depth) (EndsWith ']') text rest vs := by
  rw [readItems_continued] at h
  split at h
  · cases h
  · next v after hv =>
    obtain ⟨c, cs, rfl, hc, -, hread⟩ := ihv hv
    refine takes_continued (.inl rfl)
      (fun k cs => (readItems maxDigits depth k cs).map fun (vs, rest) => (v :: vs, rest))
      hc ?_ ?_ h
    · intro hclear k more hk hmore
      rw [readItems_continued, hread.opened hc hclear hk hmore]
    · intro text rest ws hnext
      obtain ⟨⟨vs, after⟩, hitems⟩ := exists_ok_of_map hnext
      rw [hitems] at hnext
      obtain ⟨rfl, rfl⟩ := Prod.mk.inj (Except.ok.inj hnext)
      exact (ih hitems).map (v :: ·)

theorem quotation_of_readMembers {before ms : List (String × Json)}
    (h : readMembers maxDigits depth (fuel + 1) before text = .ok (ms, rest)) :
    ∃ cs, text = '"' :: cs := by
  unfold readMembers at h
  split at h
  · exact ⟨_, rfl⟩
  · cases h

theorem takes_members {before ms : List (String × Json)}
    (ihv : ∀ {text rest : List Char} {v : Json},
      readValue maxDigits depth fuel text = .ok (v, rest) →
      Takes (readValue maxDigits depth) (ValueShape v) text rest v)
    (ih : ∀ {before : List (String × Json)} {text rest : List Char} {ms : List (String × Json)},
      readMembers maxDigits depth fuel before text = .ok (ms, rest) →
        Takes (readMembers maxDigits depth · before) (EndsWith '}') text rest ms)
    (h : readMembers maxDigits depth (fuel + 1) before text = .ok (ms, rest)) :
    Takes (readMembers maxDigits depth · before) (EndsWith '}') text rest ms := by
  obtain ⟨body, rfl⟩ := quotation_of_readMembers h
  rw [readMembers_continued] at h
  split at h
  · cases h
  · next key afterKey hkey =>
    obtain ⟨used, rfl, hle, hbody⟩ := stringBody_taken hkey
    split at h
    · next afterColon hcolon =>
      obtain ⟨pre, rfl, hpre⟩ := skipSpaces_mark hcolon (by decide) (by decide)
      obtain ⟨post, hpost, hspaces⟩ := skipSpaces_split afterColon
      split at h
      · cases h
      · next v after hv =>
        obtain ⟨c, cs, htext, hc, -, hread⟩ := ihv hv
        -- the text of the member: its key, the colon and its value
        have hmember : used ++ '"' :: (pre ++ ':' :: afterColon) =
            (used ++ '"' :: (pre ++ ':' :: (post ++ c :: cs))) ++ after := by
          rw [hpost, htext]
          simp
        rw [hmember]
        refine takes_continued (.inr rfl) (readMembers maxDigits depth · (insertMember before key v))
          (by decide) ?_ ih h
        intro hclear k more hk hmore
        simp only [clear_cons, clear_append] at hclear
        obtain ⟨hused, -, -, -, -, -, hcs⟩ := hclear
        simp only [List.length_cons, List.length_append] at hk
        simp only [blankControls_append, blankControls_of_le hle hused, hc.blankControls,
          blankControls_cons (show 0x20 ≤ '"'.toNat ∧ '"'.toNat < 0x7f by decide),
          blankControls_cons (show 0x20 ≤ ':'.toNat ∧ ':'.toNat < 0x7f by decide), List.cons_append,
          List.append_assoc, readMembers_continued, hbody, (hpre _).1, skipSpaces_blanked hspaces hc.inner,
          hread.opened hc hcs (show 2 * (cs.length + 1) ≤ k by omega) hmore]
    · cases h

end

/-- Whatever the reader accepts at the start of a text it accepts there with blanks in it. -/
theorem takes_of_read (fuel : Nat) :
    (∀ {depth : Nat} {text rest : List Char} {v : Json},
      readValue maxDigits depth fuel text = .ok (v, rest) →
      Takes (readValue maxDigits depth) (ValueShape v) text rest v) ∧
    (∀ {depth : Nat} {text rest : List Char} {vs : List Json},
      readItems maxDigits depth fuel text = .ok (vs, rest) →
        Takes (readItems maxDigits depth) (EndsWith ']') text rest vs) ∧
    ∀ {depth : Nat} {before ms : List (String × Json)} {text rest : List Char},
      readMembers maxDigits depth fuel before text = .ok (ms, rest) →
        Takes (readMembers maxDigits depth · before) (EndsWith '}') text rest ms := by
  -- the three readers call each other with less fuel, whatever the depth
  induction fuel with
  | zero =>
    refine ⟨fun h => ?_, fun h => ?_, fun h => ?_⟩
    · cases h
    · cases h
    · cases h
  | succ fuel ih =>
    obtain ⟨ihv, ihi, ihm⟩ := ih
    refine ⟨fun {depth text rest v} h => ?_, fun h => takes_items ihv ihi h, fun h => takes_members ihv ihm h⟩
    cases text with
    | nil => cases h
    | cons c cs =>
      by_cases hquote : c = '"'
      · subst hquote
        exact takes_string h
      by_cases hbracket : c = '['
      · subst hbracket
        obtain ⟨hv, htakes⟩ := takes_enclosed (by decide) (.inl rfl)
          (encloses_items depth) ihi h
        refine htakes.imp fun _ _ ⟨members, hmembers⟩ => ?_
        rcases hv with rfl | ⟨vs, rfl⟩
        · cases hmembers
        · cases hmembers
      by_cases hbrace : c = '{'
      · subst hbrace
        obtain ⟨-, htakes⟩ := takes_enclosed (by decide) (.inr rfl)
          (encloses_members depth) ihm h
        exact htakes.imp fun _ hbetween _ => hbetween
      exact takes_other ⟨hquote, hbracket, hbrace⟩ h

/-! ## Whole texts -/

/-- The object of a text stands between braces with blanks around it, and is read alike with blanks for
control characters and nothing around it. -/
theorem read_obj_taken {text : String} {members : List (String × Json)} (h : read text = .ok (obj members)) :
    ∃ lead core trail, text.toList = lead ++ (core ++ trail) ∧ (∀ c ∈ lead, isSpace c = true) ∧
      (∀ c ∈ trail, isSpace c = true) ∧ Between '{' '}' core ∧
      (Clear core → read (String.ofList (blankControls core)) = .ok (obj members)) := by
  obtain ⟨lead, hlead, hleadSpaces⟩ := skipSpaces_split text.toList
  simp only [read, readWithin] at h
  split at h
  · cases h
  · next v trail hvalue =>
    split at h
    · next hend =>
      obtain rfl := Except.ok.inj h
      obtain ⟨c, cs, htext, hc, hshape, hread⟩ := (takes_of_read _).1 hvalue
      obtain ⟨spaces, hspaces, hall⟩ := skipSpaces_split trail
      rw [List.isEmpty_iff.1 hend, List.append_nil] at hspaces
      rw [htext] at hlead
      refine ⟨lead, c :: cs, trail, hlead, hleadSpaces, hspaces ▸ hall, hshape ⟨members, rfl⟩, ?_⟩
      intro hclear
      have hstart : skipSpaces (blankControls (c :: cs)) = blankControls (c :: cs) := by
        rw [hc.blankControls, skipSpaces_cons (isSpace_of_lt hc.1)]
      have hlength : 2 * (c :: cs).length ≤ 2 * (blankControls (c :: cs)).length + 2 := by
        simp [blankControls]
      have hvalue := hread hclear _ [] hlength (stops_nil goesOn)
      rw [List.append_nil] at hvalue
      unfold read readWithin
      simp only [String.toList_ofList, hstart, hvalue]
      rfl
    · cases h

end CodeAtlas.Json
