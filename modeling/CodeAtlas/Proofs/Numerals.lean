import CodeAtlas.Number.Integer
import Mathlib.Data.List.TakeWhile
import Mathlib.Data.Nat.Digits.Defs

/-!
# Integers in texts

The integer of a text is the one that it spells: margins, a sign, and digits of any script with single
underscores between them. A text that spells none has none (`ofText?_eq_some_iff`).
-/

namespace CodeAtlas.Integer

/-- Digits with at most one underscore between two of them, and their values. -/
inductive Numeral : List Char → List Nat → Prop
  | last {c : Char} {d : Nat} (h : Text.digitValue? c = some d) : Numeral [c] [d]
  | next {c : Char} {d : Nat} {cs : List Char} {ds : List Nat} (h : Text.digitValue? c = some d)
      (rest : Numeral cs ds) : Numeral (c :: cs) (d :: ds)
  | joined {c : Char} {d : Nat} {cs : List Char} {ds : List Nat} (h : Text.digitValue? c = some d)
      (rest : Numeral cs ds) : Numeral (c :: '_' :: cs) (d :: ds)

inductive Signed : List Char → Nat → Int → Prop
  | bare (n : Nat) : Signed [] n n
  | plus (n : Nat) : Signed ['+'] n n
  | minus (n : Nat) : Signed ['-'] n (-n)

/-- The text is a signed numeral of bounded length with margins around it. -/
inductive Spells : List Char → Int → Prop
  | intro {front sign cs back : List Char} {ds : List Nat} {n : Int}
      (hfront : ∀ c ∈ front, isMargin c = true) (hback : ∀ c ∈ back, isMargin c = true)
      (hnumeral : Numeral cs ds) (hlength : ds.length ≤ maxDigits)
      (hsign : Signed sign (Nat.ofDigits 10 ds.reverse) n) : Spells (front ++ (sign ++ cs) ++ back) n

/-! ## Digits -/

theorem isBlank_of_isMargin {c : Char} (h : isMargin c = true) : Text.isBlank c = true := by
  unfold isMargin at h
  split at h
  · simp only [Bool.or_eq_true, beq_iff_eq, Bool.and_eq_true, decide_eq_true_eq] at h
    rcases h with rfl | ⟨hlow, hhigh⟩
    · decide
    · have hrange : 0x9 ≤ c.toNat ∧ c.toNat ≤ 0xd := ⟨hlow, hhigh⟩
      simp [Text.isBlank, Text.inRanges, Text.blankRanges, hrange]
  · exact h

/-- No digit of any script is a blank. -/
theorem digitZeros_apart : ∀ z ∈ Text.digitZeros, ∀ r ∈ Text.blankRanges, r.2 < z ∨ z + 10 ≤ r.1 := by
  decide

theorem isMargin_of_digitValue? {c : Char} {d : Nat} (h : Text.digitValue? c = some d) :
    isMargin c = false := by
  rw [Bool.eq_false_iff]
  intro hmargin
  have hblank := isBlank_of_isMargin hmargin
  simp only [Text.isBlank, Text.inRanges, List.any_eq_true, Bool.and_eq_true, decide_eq_true_eq]
    at hblank
  obtain ⟨r, hr, hlow, hhigh⟩ := hblank
  obtain ⟨z, hz, -⟩ := Option.map_eq_some_iff.1 h
  have hin := List.find?_some hz
  simp only [Bool.and_eq_true, decide_eq_true_eq] at hin
  rcases digitZeros_apart z (List.mem_of_find?_eq_some hz) r hr with hlt | hle
  · omega
  · omega

theorem ne_of_digitValue? {c x : Char} {d : Nat} (h : Text.digitValue? c = some d)
    (hx : Text.digitValue? x = none) : c ≠ x := by
  rintro rfl
  rw [hx] at h
  cases h

theorem ofDigits_eq (ds : List Nat) : ofDigits ds = Nat.ofDigits 10 ds.reverse := by
  have hfold : ∀ n, ds.foldl (fun n d => 10 * n + d) n =
      Nat.ofDigits 10 ds.reverse + 10 ^ ds.length * n := by
    induction ds with
    | nil => simp
    | cons d ds ih =>
      intro n
      rw [List.foldl_cons, ih, List.reverse_cons, Nat.ofDigits_append, Nat.ofDigits_singleton,
        List.length_reverse, List.length_cons]
      ring
  simpa [ofDigits] using hfold 0

/-! ## Numerals -/

theorem Numeral.head {cs : List Char} {ds : List Nat} (h : Numeral cs ds) :
    ∃ c d rest, cs = c :: rest ∧ Text.digitValue? c = some d := by
  cases h with
  | last h => exact ⟨_, _, _, rfl, h⟩
  | next h _ => exact ⟨_, _, _, rfl, h⟩
  | joined h _ => exact ⟨_, _, _, rfl, h⟩

theorem Numeral.last_digit {cs : List Char} {ds : List Nat} (h : Numeral cs ds) :
    ∃ front c d, cs = front ++ [c] ∧ Text.digitValue? c = some d := by
  induction h with
  | last h => exact ⟨[], _, _, rfl, h⟩
  | next h rest ih =>
    obtain ⟨front, c, d, rfl, hc⟩ := ih
    exact ⟨_ :: front, c, d, rfl, hc⟩
  | joined h rest ih =>
    obtain ⟨front, c, d, rfl, hc⟩ := ih
    exact ⟨_ :: '_' :: front, c, d, rfl, hc⟩

theorem digits?_of_numeral {cs : List Char} {ds : List Nat} (h : Numeral cs ds) :
    digits? cs = some ds := by
  induction h with
  | last h => simp [digits?, h]
  | next h rest ih =>
    obtain ⟨c', d', cs', rfl, hc'⟩ := rest.head
    have hne : c' ≠ '_' := ne_of_digitValue? hc' (by decide)
    rw [digits?]
    · simp [h, ih]
    · simp
    · intro _ heq
      exact hne (List.cons.inj heq).1
  | joined h rest ih => simp [digits?, h, ih]

theorem numeral_of_digits? {cs : List Char} {ds : List Nat} (h : digits? cs = some ds) :
    Numeral cs ds := by
  fun_induction digits? cs generalizing ds with
  | case1 => cases h
  | case2 c =>
    obtain ⟨d, hd, rfl⟩ := Option.map_eq_some_iff.1 h
    exact .last hd
  | case3 c rest ih =>
    simp only [Option.bind_eq_bind, Option.bind_eq_some_iff, Option.pure_def, Option.some.injEq] at h
    obtain ⟨d, hd, ds', hds', rfl⟩ := h
    exact .joined hd (ih hds')
  | case4 c rest _ _ ih =>
    simp only [Option.bind_eq_bind, Option.bind_eq_some_iff, Option.pure_def, Option.some.injEq] at h
    obtain ⟨d, hd, ds', hds', rfl⟩ := h
    exact .next hd (ih hds')

theorem unsigned?_eq_some_iff (cs : List Char) (n : Nat) : unsigned? cs = some n ↔
    ∃ ds, Numeral cs ds ∧ ds.length ≤ maxDigits ∧ n = Nat.ofDigits 10 ds.reverse := by
  simp only [unsigned?, Option.bind_eq_bind, Option.bind_eq_some_iff, Option.pure_def]
  constructor
  · rintro ⟨ds, hds, hn⟩
    split at hn
    · rename_i hlength
      refine ⟨ds, numeral_of_digits? hds, hlength, ?_⟩
      rw [← ofDigits_eq]
      exact (Option.some.inj hn).symm
    · cases hn
  · rintro ⟨ds, hds, hlength, rfl⟩
    exact ⟨ds, digits?_of_numeral hds, by rw [if_pos hlength, ofDigits_eq]⟩

/-! ## Margins -/

theorem exists_margins (cs : List Char) : ∃ front back, cs = front ++ dropMargins cs ++ back ∧
    (∀ c ∈ front, isMargin c = true) ∧ ∀ c ∈ back, isMargin c = true := by
  refine ⟨cs.takeWhile isMargin, ((cs.dropWhile isMargin).reverse.takeWhile isMargin).reverse, ?_, ?_, ?_⟩
  · rw [dropMargins, List.append_assoc, ← List.reverse_append, List.takeWhile_append_dropWhile,
      List.reverse_reverse, List.takeWhile_append_dropWhile]
  · exact fun c hc => List.mem_takeWhile_imp hc
  · exact fun c hc => List.mem_takeWhile_imp (List.mem_reverse.1 hc)

theorem dropMargins_of_ends {front text back : List Char} (hfront : ∀ c ∈ front, isMargin c = true)
    (hback : ∀ c ∈ back, isMargin c = true) (hhead : ∃ c rest, text = c :: rest ∧ isMargin c = false)
    (hlast : ∃ rest c, text = rest ++ [c] ∧ isMargin c = false) :
    dropMargins (front ++ text ++ back) = text := by
  have hleft : (front ++ text ++ back).dropWhile isMargin = text ++ back := by
    obtain ⟨c, rest, rfl, hc⟩ := hhead
    rw [List.append_assoc, List.dropWhile_append_of_pos hfront, List.cons_append,
      List.dropWhile_cons_of_neg (by simp [hc])]
  have hright : (text ++ back).reverse.dropWhile isMargin = text.reverse := by
    obtain ⟨rest, c, rfl, hc⟩ := hlast
    rw [List.reverse_append, List.dropWhile_append_of_pos (by simpa using hback), List.reverse_append,
      List.reverse_singleton, List.singleton_append, List.dropWhile_cons_of_neg (by simp [hc])]
  rw [dropMargins, hleft, hright, List.reverse_reverse]

/-! ## Whole texts -/

theorem isMargin_sign : isMargin '+' = false ∧ isMargin '-' = false := by decide

theorem dropMargins_of_signed {front sign cs back : List Char} {ds : List Nat} {m : Nat} {n : Int}
    (hfront : ∀ c ∈ front, isMargin c = true) (hback : ∀ c ∈ back, isMargin c = true)
    (hnumeral : Numeral cs ds) (hsign : Signed sign m n) :
    dropMargins (front ++ (sign ++ cs) ++ back) = sign ++ cs := by
  obtain ⟨c, d, rest, hcs, hc⟩ := hnumeral.head
  obtain ⟨rest', c', d', hcs', hc'⟩ := hnumeral.last_digit
  apply dropMargins_of_ends hfront hback
  · cases hsign with
    | bare => exact ⟨c, rest, hcs, isMargin_of_digitValue? hc⟩
    | plus => exact ⟨'+', cs, rfl, isMargin_sign.1⟩
    | minus => exact ⟨'-', cs, rfl, isMargin_sign.2⟩
  · exact ⟨sign ++ rest', c', by rw [hcs', List.append_assoc], isMargin_of_digitValue? hc'⟩

theorem ofText?_of_spells {s : String} {n : Int} (h : Spells s.toList n) : ofText? s = some n := by
  generalize htext : s.toList = text at h
  cases h with
  | intro hfront hback hnumeral hlength hsign =>
    rename_i front sign cs back ds
    have hnumber := (unsigned?_eq_some_iff cs _).2 ⟨ds, hnumeral, hlength, rfl⟩
    unfold ofText?
    rw [htext, dropMargins_of_signed hfront hback hnumeral hsign]
    cases hsign with
    | plus => simp [hnumber]
    | minus => simp [hnumber]
    | bare =>
      obtain ⟨c, d, rest, rfl, hc⟩ := hnumeral.head
      -- a digit is none of the two signs
      have hplus : c ≠ '+' := ne_of_digitValue? hc (by decide)
      have hminus : c ≠ '-' := ne_of_digitValue? hc (by decide)
      simp [hplus, hminus, hnumber]

theorem spells_of_ofText? {s : String} {n : Int} (h : ofText? s = some n) : Spells s.toList n := by
  obtain ⟨front, back, hs, hfront, hback⟩ := exists_margins s.toList
  rw [hs]
  have hspells : ∀ {sign cs : List Char} {m : Nat} {k : Int}, unsigned? cs = some m →
      Signed sign m k → Spells (front ++ (sign ++ cs) ++ back) k := by
    intro sign cs m k hm hsign
    obtain ⟨ds, hnumeral, hlength, rfl⟩ := (unsigned?_eq_some_iff cs m).1 hm
    exact .intro hfront hback hnumeral hlength hsign
  unfold ofText? at h
  split at h
  all_goals
    simp only [Option.map_eq_some_iff, Option.bind_eq_bind, Option.bind_eq_some_iff, Option.pure_def,
      Option.some.injEq] at h
    obtain ⟨_, ⟨m, hm, rfl⟩, rfl⟩ := h
  next cs hcs =>
    rw [hcs]
    exact hspells hm (.minus m)
  next cs hcs =>
    rw [hcs]
    exact hspells hm (.plus m)
  next => exact hspells hm (.bare m)

/-- The integer of a text is the one that it spells. -/
theorem ofText?_eq_some_iff (s : String) (n : Int) : ofText? s = some n ↔ Spells s.toList n :=
  ⟨spells_of_ofText?, ofText?_of_spells⟩

end CodeAtlas.Integer
