import CodeAtlas.Json.Literal
import CodeAtlas.Json.Reader
import CodeAtlas.Proofs.WrittenDoubles

/-!
# Values told by their literals

A literal shows where it ends, and a value is told by it.
-/

namespace CodeAtlas.Json

/-! ## Characters -/

theorem hexValue?_hexDigit : ∀ n < 16, hexValue? (hexDigit n) = some n := by
  decide

def hexNumber (digits : List Char) : Nat :=
  digits.foldl (fun n c => 16 * n + (hexValue? c).getD 0) 0

/-- The character that is written at the head of a text in quotes, and what stands behind it. -/
def unescape : List Char → Option (Char × List Char)
  | '\\' :: 'n' :: rest => some ('\n', rest)
  | '\\' :: 'r' :: rest => some ('\r', rest)
  | '\\' :: 't' :: rest => some ('\t', rest)
  | '\\' :: 'x' :: rest => some (Char.ofNat (hexNumber (rest.take 2)), rest.drop 2)
  | '\\' :: 'u' :: rest => some (Char.ofNat (hexNumber (rest.take 4)), rest.drop 4)
  | '\\' :: 'U' :: rest => some (Char.ofNat (hexNumber (rest.take 8)), rest.drop 8)
  | '\\' :: c :: rest => some (c, rest)
  | c :: rest => some (c, rest)
  | [] => none

theorem unescape_plain {c : Char} (h : c ≠ '\\') (rest : List Char) :
    unescape (c :: rest) = some (c, rest) := by
  unfold unescape
  split <;> simp_all

theorem unescape_hexEscape (c : Char) (rest : List Char) :
    unescape (hexEscape c.toNat ++ rest) = some (c, rest) := by
  have hc : c.toNat < 1114112 := by
    rcases c.valid with h | h
    · exact h.trans (by decide)
    · exact h.2
  have hdigit : ∀ n, (hexValue? (hexDigit (n % 16))).getD 0 = n % 16 := fun n => by
    rw [hexValue?_hexDigit _ (Nat.mod_lt _ (by decide))]
    rfl
  have hback : ∀ n, n = c.toNat → Char.ofNat n = c := fun n hn => by
    rw [hn, Char.ofNat_toNat]
  unfold hexEscape
  simp only
  split
  · simp only [List.cons_append, List.nil_append, unescape, Option.some.injEq, Prod.mk.injEq]
    refine ⟨hback _ ?_, rfl⟩
    simp [hexNumber, hdigit]
    omega
  · split
    · simp only [List.cons_append, List.nil_append, unescape, Option.some.injEq, Prod.mk.injEq]
      refine ⟨hback _ ?_, rfl⟩
      simp [hexNumber, hdigit]
      omega
    · simp only [List.cons_append, unescape, Option.some.injEq, Prod.mk.injEq]
      refine ⟨hback _ ?_, rfl⟩
      simp [hexNumber, hdigit, List.range_succ]
      omega

theorem unescape_literalChar {quote : Char} (hquote : quote = '\'' ∨ quote = '"') (c : Char)
    (rest : List Char) : unescape (literalChar quote c ++ rest) = some (c, rest) := by
  unfold literalChar
  by_cases hc : c = quote ∨ c = '\\'
  · rw [if_pos (by simpa using hc)]
    rcases hc with rfl | rfl
    · rcases hquote with rfl | rfl <;> rfl
    · rfl
  · have hplain : c ≠ '\\' := fun h => hc (.inr h)
    rw [if_neg (by simpa using hc)]
    split
    · next h => simp_all [unescape]
    · split
      · next h => simp_all [unescape]
      · split
        · next h => simp_all [unescape]
        · split
          · exact unescape_plain hplain rest
          · exact unescape_hexEscape c rest

theorem literalChar_ne_quote {quote : Char} (hquote : quote = '\'' ∨ quote = '"') (c : Char)
    (rest tail : List Char) : literalChar quote c ++ rest ≠ quote :: tail := by
  intro h
  have hc := unescape_literalChar hquote c rest
  rw [h, unescape_plain (by rcases hquote with rfl | rfl <;> decide)] at hc
  obtain ⟨rfl, -⟩ := Prod.mk.inj (Option.some.inj hc)
  rw [literalChar, if_pos (by simp)] at h
  rcases hquote with rfl | rfl <;> simp at h

theorem literalChars_inj {quote : Char} (hquote : quote = '\'' ∨ quote = '"') {cs ds r s : List Char}
    (h : cs.flatMap (literalChar quote) ++ quote :: r = ds.flatMap (literalChar quote) ++ quote :: s) :
    cs = ds ∧ r = s := by
  induction cs generalizing ds with
  | nil =>
    cases ds with
    | nil => exact ⟨rfl, (List.cons.inj h).2⟩
    | cons d ds =>
      rw [List.flatMap_cons, List.append_assoc] at h
      exact absurd h.symm (literalChar_ne_quote hquote d _ _)
  | cons c cs ih =>
    cases ds with
    | nil =>
      rw [List.flatMap_cons, List.append_assoc] at h
      exact absurd h (literalChar_ne_quote hquote c _ _)
    | cons d ds =>
      rw [List.flatMap_cons, List.flatMap_cons, List.append_assoc, List.append_assoc] at h
      have hread := congrArg unescape h
      rw [unescape_literalChar hquote, unescape_literalChar hquote] at hread
      obtain ⟨rfl, hrest⟩ := Prod.mk.inj (Option.some.inj hread)
      obtain ⟨rfl, rfl⟩ := ih hrest
      exact ⟨rfl, rfl⟩

theorem literalQuote_cases (cs : List Char) : literalQuote cs = '\'' ∨ literalQuote cs = '"' := by
  unfold literalQuote
  split <;> simp

theorem literalText_toList (s : String) :
    (literalText s).toList = literalQuote s.toList
      :: (s.toList.flatMap (literalChar (literalQuote s.toList)) ++ [literalQuote s.toList]) := by
  simp [literalText]

theorem literalText_append_inj {a b : String} {r s : List Char}
    (h : (literalText a).toList ++ r = (literalText b).toList ++ s) : a = b ∧ r = s := by
  rw [literalText_toList, literalText_toList, List.cons_append, List.cons_append,
    List.append_assoc, List.append_assoc] at h
  obtain ⟨hquote, hbody⟩ := List.cons.inj h
  rw [← hquote] at hbody
  obtain ⟨hchars, hrest⟩ := literalChars_inj (literalQuote_cases _) hbody
  exact ⟨String.toList_inj.1 hchars, hrest⟩

/-! ## Values -/

/-- Induction along the items and members of a value. -/
@[elab_as_elim]
theorem induction_on {motive : Json → Prop} (j : Json) (null : motive .null)
    (bool : ∀ b, motive (.bool b)) (int : ∀ n, motive (.int n)) (real : ∀ x, motive (.real x))
    (str : ∀ s, motive (.str s)) (arr : ∀ items, (∀ i ∈ items, motive i) → motive (.arr items))
    (obj : ∀ members, (∀ m ∈ members, motive m.2) → motive (.obj members)) : motive j := by
  match j with
  | .null => exact null
  | .bool b => exact bool b
  | .int n => exact int n
  | .real x => exact real x
  | .str s => exact str s
  | .arr items => exact arr items fun i _ => induction_on i null bool int real str arr obj
  | .obj members => exact obj members fun m _ => induction_on m.2 null bool int real str arr obj
termination_by sizeOf j
decreasing_by
  · have := List.sizeOf_lt_of_mem ‹i ∈ items›
    simp only [Json.arr.sizeOf_spec]
    omega
  · have := List.sizeOf_lt_of_mem ‹m ∈ members›
    have : sizeOf m.2 < sizeOf m := by
      cases m
      simp
    simp only [Json.obj.sizeOf_spec]
    omega

inductive IsExact : Json → Prop
  | null : IsExact .null
  | bool (b : Bool) : IsExact (.bool b)
  | int (n : Int) : IsExact (.int n)
  | real {x : Binary64} : x.IsCanonical → IsExact (.real x)
  | str (s : String) : IsExact (.str s)
  | arr {items : List Json} : (∀ i ∈ items, IsExact i) → IsExact (.arr items)
  | obj {members : List (String × Json)} : (∀ m ∈ members, IsExact m.2) → IsExact (.obj members)

theorem literalItems_eq (items : List Json) : literalItems items = items.map literal := by
  induction items with
  | nil => rfl
  | cons i items ih => rw [literalItems, ih, List.map_cons]

theorem literalMembers_eq (members : List (String × Json)) :
    literalMembers members = members.map fun m => literalText m.1 ++ ": " ++ literal m.2 := by
  induction members with
  | nil => rfl
  | cons m members ih => rw [literalMembers, ih, List.map_cons]

inductive Form where
  | word (c : Char)
  | number
  | text
  | array
  | object
deriving DecidableEq

def formOf (c : Char) : Form :=
  if Binary64.isNumeric c then .number
  else if c = '\'' ∨ c = '"' then .text
  else if c = '[' then .array
  else if c = '{' then .object
  else .word c

def form : Json → Form
  | null => .word 'N'
  | bool b => if b then .word 'T' else .word 'F'
  | int _ => .number
  | real _ => .number
  | str _ => .text
  | arr _ => .array
  | obj _ => .object

theorem isDigit_of_mem_repr {k : Nat} {c : Char} (h : c ∈ k.repr.toList) : c.isDigit = true := by
  rw [Nat.toList_repr] at h
  exact Nat.isDigit_of_mem_toDigits (by decide) (by decide) h

theorem isDigit_of_mem_toString {n : Int} {c : Char} (h : c ∈ (toString n).toList) :
    c.isDigit = true ∨ c = '-' := by
  rw [Int.toString_eq_repr] at h
  cases n with
  | ofNat k => exact .inl (isDigit_of_mem_repr h)
  | negSucc k =>
    rw [Int.repr, String.toList_append] at h
    rcases List.mem_cons.1 h with h | h
    · exact .inr h
    · exact .inl (isDigit_of_mem_repr h)

theorem toString_int_inj {n m : Int} (h : toString n = toString m) : n = m := by
  have hnat {k l : Nat} (h : k.repr = l.repr) : k = l := by
    have hdigits := congrArg (fun s => Nat.ofDigitChars 10 s.toList 0) h
    simpa [Nat.toList_repr, Nat.ofDigitChars_toDigits] using hdigits
  have hsign {k l : Nat} : k.repr ≠ "-" ++ l.repr := by
    intro h
    have hmem : '-' ∈ k.repr.toList := by simp [h]
    exact absurd (isDigit_of_mem_repr hmem) (by decide)
  rw [Int.toString_eq_repr, Int.toString_eq_repr] at h
  cases n with
  | ofNat k =>
    cases m with
    | ofNat l => exact congrArg Int.ofNat (hnat h)
    | negSucc l => exact absurd h hsign
  | negSucc k =>
    cases m with
    | ofNat l => exact absurd h.symm hsign
    | negSucc l => rw [Nat.succ.inj (hnat ((String.append_right_inj _).1 h))]

theorem toString_toList_ne_nil (n : Int) : (toString n).toList ≠ [] := by
  rw [Int.toString_eq_repr]
  cases n with
  | ofNat k =>
    rw [Int.repr, Nat.repr_eq_ofList_toDigits, String.toList_ofList]
    exact Nat.toDigits_ne_nil
  | negSucc k => simp [Int.repr]

/-- A literal that consists of characters of numbers. -/
theorem literal_numeric {j : Json} (h : j.form = .number) :
    (literal j).toList ≠ [] ∧ ∀ c ∈ (literal j).toList, Binary64.isNumeric c = true := by
  cases j with
  | int n =>
    refine ⟨toString_toList_ne_nil n, fun c hc => ?_⟩
    rcases isDigit_of_mem_toString hc with hc | rfl
    · simp [Binary64.isNumeric, hc]
    · rfl
  | real x =>
    obtain ⟨c, hc, -⟩ := x.exists_mem_text
    exact ⟨List.ne_nil_of_mem hc, fun c hc => Binary64.isNumeric_of_mem_text hc⟩
  | null => cases h
  | bool b => cases b <;> cases h
  | str s => cases h
  | arr items => cases h
  | obj members => cases h

theorem literal_starts (j : Json) :
    ∃ c rest, (literal j).toList = c :: rest ∧ formOf c = j.form := by
  have hnumber : j.form = .number →
      ∃ c rest, (literal j).toList = c :: rest ∧ formOf c = j.form := by
    intro h
    obtain ⟨hne, hnumeric⟩ := literal_numeric h
    obtain ⟨c, rest, hj⟩ := List.exists_cons_of_ne_nil hne
    refine ⟨c, rest, hj, ?_⟩
    rw [h, formOf, if_pos (hnumeric c (by simp [hj]))]
  cases j with
  | null => exact ⟨'N', _, rfl, by decide⟩
  | bool b => cases b <;> exact ⟨_, _, rfl, by decide⟩
  | int n => exact hnumber rfl
  | real x => exact hnumber rfl
  | str s =>
    refine ⟨_, _, literalText_toList s, ?_⟩
    rcases literalQuote_cases s.toList with h | h <;> rw [h] <;> rfl
  | arr items => exact ⟨'[', _, by rw [literal]; simp; rfl, rfl⟩
  | obj members => exact ⟨'{', _, by rw [literal, toList_braced], rfl⟩

def enclosed {β : Type} (opening close : Char) (part : β → List Char) : List β → List Char
  | [] => [opening, close]
  | x :: xs => opening :: (part x ++ ((xs.flatMap fun y => ',' :: ' ' :: part y) ++ [close]))

theorem enclosed_append_inj {β : Type} {opening close : Char} {part : β → List Char}
    {xs ys : List β} {r s : List Char} (hclose : ',' ≠ close)
    (hstart : ∀ x t u, part x ++ t ≠ close :: u)
    (hparts : ∀ x ∈ xs, ∀ y ∈ ys, ∀ r s : List Char, (r.head? = some ',' ∨ r.head? = some close) →
      (s.head? = some ',' ∨ s.head? = some close) → part x ++ r = part y ++ s → x = y ∧ r = s)
    (h : enclosed opening close part xs ++ r = enclosed opening close part ys ++ s) :
    xs = ys ∧ r = s := by
  cases xs with
  | nil =>
    cases ys with
    | nil => exact ⟨rfl, by simpa [enclosed] using h⟩
    | cons y ys =>
      simp only [enclosed, List.cons_append, List.nil_append, List.append_assoc, List.cons.injEq,
        true_and] at h
      exact absurd h.symm (hstart y _ _)
  | cons x xs =>
    cases ys with
    | nil =>
      simp only [enclosed, List.cons_append, List.nil_append, List.append_assoc, List.cons.injEq,
        true_and] at h
      exact absurd h (hstart x _ _)
    | cons y ys =>
      have hall : (x :: xs).flatMap (fun y => ',' :: ' ' :: part y) ++ close :: r
          = (y :: ys).flatMap (fun y => ',' :: ' ' :: part y) ++ close :: s := by
        simpa [enclosed] using h
      refine flatMap_inj_of_close (fun x => ⟨_, rfl⟩) hclose ?_ hall
      intro x hx y hy r s hr hs heq
      exact hparts x hx y hy r s hr hs (by simpa using heq)

def memberChars (m : String × Json) : List Char :=
  (literalText m.1).toList ++ ':' :: ' ' :: (literal m.2).toList

theorem literal_arr (items : List Json) :
    (literal (.arr items)).toList = enclosed '[' ']' (fun i => (literal i).toList) items := by
  rw [literal, literalItems_eq]
  cases items with
  | nil => rfl
  | cons i items =>
    rw [String.toList_append, String.toList_append, List.map_cons, toList_intercalate_cons]
    simp [enclosed, List.flatMap_map]

theorem literal_obj (members : List (String × Json)) :
    (literal (.obj members)).toList = enclosed '{' '}' memberChars members := by
  rw [literal, literalMembers_eq, toList_braced]
  cases members with
  | nil => rfl
  | cons m members =>
    rw [List.map_cons, toList_intercalate_cons]
    simp [enclosed, memberChars, List.flatMap_map]

theorem form_eq_of_append {a b : Json} {r s : List Char}
    (h : (literal a).toList ++ r = (literal b).toList ++ s) : a.form = b.form := by
  obtain ⟨c, rest, ha, hc⟩ := literal_starts a
  obtain ⟨d, rest', hb, hd⟩ := literal_starts b
  rw [ha, hb, List.cons_append, List.cons_append] at h
  rw [← hc, ← hd, (List.cons.inj h).1]

theorem literal_ne_close {j : Json} {close : Char} (hclose : formOf close = .word close)
    (hword : close ≠ 'N' ∧ close ≠ 'T' ∧ close ≠ 'F') (t u : List Char) :
    (literal j).toList ++ t ≠ close :: u := by
  intro h
  obtain ⟨c, rest, hj, hc⟩ := literal_starts j
  rw [hj, List.cons_append] at h
  rw [(List.cons.inj h).1, hclose] at hc
  cases j with
  | bool b => cases b <;> simp_all [form]
  | _ => simp_all [form]

theorem memberChars_ne_close (m : String × Json) (t u : List Char) :
    memberChars m ++ t ≠ '}' :: u := by
  intro h
  rw [memberChars, literalText_toList] at h
  have hquote := (List.cons.inj h).1
  rcases literalQuote_cases m.1.toList with hq | hq
  · rw [hq] at hquote
    exact absurd hquote (by decide)
  · rw [hq] at hquote
    exact absurd hquote (by decide)

theorem stops_of_head {r : List Char} {close : Char} (hclose : Binary64.isNumeric close = false)
    (h : r.head? = some ',' ∨ r.head? = some close) : Stops Binary64.isNumeric r := by
  intro a ha
  rcases h with h | h <;> rw [h] at ha <;> cases ha
  · rfl
  · exact hclose

theorem number_append_inj {a b : Json} {r s : List Char} (ha : a.IsExact) (hb : b.IsExact)
    (hna : a.form = .number) (hnb : b.form = .number) (hr : Stops Binary64.isNumeric r)
    (hs : Stops Binary64.isNumeric s) (h : (literal a).toList ++ r = (literal b).toList ++ s) :
    a = b ∧ r = s := by
  obtain ⟨htext, hrest⟩ :=
    append_inj_of_stops (literal_numeric hna).2 (literal_numeric hnb).2 hr hs h
  refine ⟨?_, hrest⟩
  -- A double shows a point, an exponent or a word, and an integer does not.
  have hmixed : ∀ {n : Int} {x : Binary64}, (toString n).toList ≠ x.text.toList := by
    intro n x heq
    obtain ⟨c, hc, hdigit, hsign⟩ := x.exists_mem_text
    rw [← heq] at hc
    rcases isDigit_of_mem_toString hc with h | h
    · rw [h] at hdigit
      exact absurd hdigit (by decide)
    · exact hsign h
  cases ha with
  | int n =>
    cases hb with
    | int m => rw [toString_int_inj (String.toList_inj.1 htext)]
    | real hy => exact absurd htext hmixed
    | bool b => cases b <;> cases hnb
    | _ => cases hnb
  | real hx =>
    cases hb with
    | int m => exact absurd htext.symm hmixed
    | real hy => rw [Binary64.text_injective hx hy (String.toList_inj.1 htext)]
    | bool b => cases b <;> cases hnb
    | _ => cases hnb
  | bool b => cases b <;> cases hna
  | _ => cases hna

theorem literal_append_inj {a b : Json} {r s : List Char} (ha : a.IsExact) (hb : b.IsExact)
    (hr : Stops Binary64.isNumeric r) (hs : Stops Binary64.isNumeric s)
    (h : (literal a).toList ++ r = (literal b).toList ++ s) : a = b ∧ r = s := by
  have hform := form_eq_of_append h
  induction a using induction_on generalizing b r s with
  | null =>
    cases b with
    | null => exact ⟨rfl, List.append_cancel_left h⟩
    | bool b => cases b <;> simp [form] at hform
    | _ => cases hform
  | bool x =>
    cases b with
    | bool y =>
      have hxy : x = y := by
        revert hform
        cases x <;> cases y <;> simp [form]
      subst hxy
      exact ⟨rfl, List.append_cancel_left h⟩
    | _ => cases x <;> simp [form] at hform
  | int n => exact number_append_inj ha hb rfl hform.symm hr hs h
  | real x => exact number_append_inj ha hb rfl hform.symm hr hs h
  | str x =>
    cases b with
    | str y =>
      obtain ⟨rfl, rfl⟩ := literalText_append_inj h
      exact ⟨rfl, rfl⟩
    | bool b => cases b <;> cases hform
    | _ => cases hform
  | arr xs ih =>
    cases b with
    | arr ys =>
      rw [literal_arr, literal_arr] at h
      cases ha with | arr ha =>
      cases hb with | arr hb =>
      have hlist := enclosed_append_inj (by decide)
        (fun x t u => literal_ne_close (j := x) rfl (by decide) t u) ?_ h
      · obtain ⟨rfl, rfl⟩ := hlist
        exact ⟨rfl, rfl⟩
      · intro x hx y hy r s hr hs heq
        exact ih x hx (ha x hx) (hb y hy) (stops_of_head rfl hr) (stops_of_head rfl hs) heq
          (form_eq_of_append heq)
    | bool b => cases b <;> cases hform
    | _ => cases hform
  | obj xs ih =>
    cases b with
    | obj ys =>
      rw [literal_obj, literal_obj] at h
      cases ha with | obj ha =>
      cases hb with | obj hb =>
      have hlist := enclosed_append_inj (by decide) ?_ ?_ h
      · obtain ⟨rfl, rfl⟩ := hlist
        exact ⟨rfl, rfl⟩
      · exact memberChars_ne_close
      · intro x hx y hy r s hr hs heq
        rw [memberChars, memberChars, List.append_assoc, List.append_assoc] at heq
        obtain ⟨hkey, heq⟩ := literalText_append_inj heq
        have heq : (literal x.2).toList ++ r = (literal y.2).toList ++ s := by simpa using heq
        obtain ⟨hvalue, hrest⟩ := ih x hx (ha x hx) (hb y hy) (stops_of_head rfl hr)
          (stops_of_head rfl hs) heq (form_eq_of_append heq)
        exact ⟨Prod.ext hkey hvalue, hrest⟩
    | bool b => cases b <;> cases hform
    | _ => cases hform

/-! ## No null character -/

theorem nul_notMem_hexEscape (n : Nat) : '\x00' ∉ hexEscape n := by
  have hall : ∀ k < 16, '\x00' ≠ hexDigit k := by decide
  have hdigit : ∀ m, '\x00' ≠ hexDigit (m % 16) := fun m => hall _ (Nat.mod_lt _ (by decide))
  unfold hexEscape
  simp only
  split
  · simp [hdigit]
  · split <;> simp [hdigit, List.range_succ]

theorem nul_notMem_literalChar {quote : Char} (hquote : quote = '\'' ∨ quote = '"') (c : Char) :
    '\x00' ∉ literalChar quote c := by
  unfold literalChar
  split
  · next h =>
    have hc : '\x00' ≠ c := by
      rintro rfl
      rcases hquote with rfl | rfl <;> exact absurd h (by decide)
    simp [hc]
  · split
    · simp
    · split
      · simp
      · split
        · simp
        · split
          · next h =>
            have hc : '\x00' ≠ c := by
              rintro rfl
              exact absurd h (by decide)
            simp [hc]
          · exact nul_notMem_hexEscape c.toNat

theorem nul_notMem_literalText (s : String) : '\x00' ∉ (literalText s).toList := by
  have hquote : '\x00' ≠ literalQuote s.toList := by
    rcases literalQuote_cases s.toList with h | h <;> rw [h] <;> decide
  rw [literalText_toList]
  intro h
  simp only [List.mem_cons, hquote, List.mem_append, List.mem_flatMap, List.not_mem_nil, or_false,
    false_or] at h
  obtain ⟨c, -, hc⟩ := h
  exact nul_notMem_literalChar (literalQuote_cases _) c hc

theorem nul_notMem_enclosed {β : Type} {opening close : Char} {part : β → List Char} {xs : List β}
    (hopening : '\x00' ≠ opening) (hclose : '\x00' ≠ close) (h : ∀ x ∈ xs, '\x00' ∉ part x) :
    '\x00' ∉ enclosed opening close part xs := by
  cases xs with
  | nil => simp [enclosed, hopening, hclose]
  | cons x xs =>
    have hx := h x (by simp)
    have hxs : ∀ y ∈ xs, '\x00' ∉ part y := fun y hy => h y (by simp [hy])
    simpa [enclosed, hopening, hclose, hx] using hxs

theorem nul_notMem_literal (j : Json) : '\x00' ∉ (literal j).toList := by
  have hnumber : ∀ j : Json, j.form = .number → '\x00' ∉ (literal j).toList := by
    intro j hj h
    exact absurd ((literal_numeric hj).2 _ h) (by decide)
  induction j using induction_on with
  | null => decide
  | bool b => cases b <;> decide
  | int n => exact hnumber _ rfl
  | real x => exact hnumber _ rfl
  | str s => exact nul_notMem_literalText s
  | arr items ih =>
    rw [literal_arr]
    exact nul_notMem_enclosed (by decide) (by decide) ih
  | obj members ih =>
    rw [literal_obj]
    refine nul_notMem_enclosed (by decide) (by decide) fun m hm => ?_
    simp [memberChars, nul_notMem_literalText, ih m hm]

end CodeAtlas.Json
