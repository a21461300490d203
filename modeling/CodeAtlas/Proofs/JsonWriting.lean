import CodeAtlas.Json.Writer
import CodeAtlas.Proofs.JsonReading
import CodeAtlas.Proofs.Literals
import Mathlib.Tactic.IntervalCases

/-!
# Written values, read again

With every item on a line of its own, what is written is a strict text of the value. So it is read
again as that value, as far as the reader takes the nesting and the integers.
-/

namespace CodeAtlas.Json

/-! ## Strings -/

theorem hex4?_unitEscape {n : Nat} (h : n < 0x10000) :
    hex4? (hexDigit (n / 4096 % 16)) (hexDigit (n / 256 % 16)) (hexDigit (n / 16 % 16))
      (hexDigit (n % 16)) = some n := by
  have hdigit (m : Nat) : hexValue? (hexDigit (m % 16)) = some (m % 16) :=
    hexValue?_hexDigit _ (Nat.mod_lt _ (by decide))
  simp only [hex4?, hdigit, Option.bind_eq_bind, Option.bind_some, Option.pure_def,
    Option.some.injEq]
  omega

def CodeUnit.ofNat (n : Nat) (h : n < 0x10000) : CodeUnit :=
  ⟨(hexDigit (n / 4096 % 16), hexDigit (n / 256 % 16), hexDigit (n / 16 % 16), hexDigit (n % 16)),
    n, hex4?_unitEscape h⟩

theorem exists_piece (c : Char) : ∃ p : Piece, p.text = escapeChar false c ∧ p.char = c := by
  unfold escapeChar
  split
  · exact ⟨.escape '"' '"' (by decide), rfl, rfl⟩
  · exact ⟨.escape '\\' '\\' (by decide), rfl, rfl⟩
  · exact ⟨.escape 'n' '\n' (by decide), rfl, rfl⟩
  · exact ⟨.escape 'r' '\r' (by decide), rfl, rfl⟩
  · exact ⟨.escape 't' '\t' (by decide), rfl, rfl⟩
  · exact ⟨.escape 'b' '\x08' (by decide), rfl, rfl⟩
  · exact ⟨.escape 'f' '\x0c' (by decide), rfl, rfl⟩
  · next hquote hslash _ _ _ _ _ =>
    -- of the characters without a letter of their own, only controls are escaped
    by_cases hc : c.toNat < 0x20
    · have hval : c.val < 0x20 := hc
      have hunit : c.toNat < 0x10000 := by omega
      refine ⟨.point (.ofNat c.toNat hunit) (.inl (Nat.lt_trans hc (by decide))), ?_,
        c.ofNat_toNat⟩
      simp only [hval, decide_true, Bool.true_or, if_true, pointEscape, if_pos hunit]
      rfl
    · have hval : ¬ c.val < 0x20 := hc
      refine ⟨.plain c ⟨hquote, hslash, by omega⟩, ?_, rfl⟩
      simp [hval, Piece.text]

theorem exists_pieces (cs : List Char) :
    ∃ ps : List Piece, ps.flatMap Piece.text = cs.flatMap (escapeChar false)
      ∧ ps.map Piece.char = cs := by
  induction cs with
  | nil => exact ⟨[], rfl, rfl⟩
  | cons c cs ih =>
    obtain ⟨p, hp, rfl⟩ := exists_piece c
    obtain ⟨ps, hps, rfl⟩ := ih
    refine ⟨p :: ps, ?_, rfl⟩
    rw [List.flatMap_cons, List.flatMap_cons, hp, hps]

theorem exists_quote (s : String) :
    ∃ q : Quote, q.text = (quoted false s).toList ∧ q.value = s := by
  obtain ⟨ps, htext, hchars⟩ := exists_pieces s.toList
  refine ⟨⟨ps⟩, ?_, ?_⟩
  · rw [quoted, String.toList_ofList, ← htext]
    rfl
  · rw [Quote.value, hchars, String.ofList_toList]

/-! ## Numbers -/

theorem toDigits_leading (n : Nat) :
    Nat.toDigits 10 n = ['0'] ∨ (Nat.toDigits 10 n).head? ≠ some '0' := by
  induction n using Nat.strongRecOn with
  | _ n ih =>
    by_cases hn : n < 10
    · rw [Nat.toDigits_of_lt_base hn]
      interval_cases n <;> decide
    · rw [Nat.toDigits_of_base_le (by decide) (by omega)]
      obtain hzero | hhead := ih (n / 10) (by omega)
      · -- no number but zero is noted as one
        have hvalue := Nat.ofDigitChars_ten_toDigits (n := n / 10)
        have hzero : n / 10 = 0 := by simpa [hzero, Nat.ofDigitChars_cons] using hvalue.symm
        omega
      · refine .inr ?_
        rwa [List.head?_append_of_ne_nil _ Nat.toDigits_ne_nil]

def Numeral.ofInt (n : Int) : Numeral where
  negative := decide (n < 0)
  whole := Nat.toDigits 10 n.natAbs
  whole_ne := Nat.toDigits_ne_nil
  leading := toDigits_leading _
  places := []
  isDigit := by
    intro c hc
    rw [List.append_nil] at hc
    exact Nat.isDigit_of_mem_toDigits (by decide) (by decide) hc
  exponent := none

theorem Numeral.ofInt_text (n : Int) : (Numeral.ofInt n).text = (toString n).toList := by
  have hsize : (Numeral.ofInt n).sizeText = Nat.toDigits 10 n.natAbs := List.append_nil _
  cases n with
  | ofNat m =>
    rw [Numeral.text, hsize, if_neg (by simp [Numeral.ofInt])]
    exact Nat.toList_repr.symm
  | negSucc m =>
    have htext : toString (Int.negSucc m) = "-" ++ toString (m + 1) := rfl
    rw [Numeral.text, hsize, if_pos (by simp [Numeral.ofInt]), htext, String.toList_append,
      Nat.toString_eq_repr, Nat.toList_repr]
    rfl

theorem Numeral.ofInt_value (n : Int) : (Numeral.ofInt n).value = .int n := by
  have hvalue : Nat.ofDigitChars 10 (Numeral.ofInt n).whole 0 = n.natAbs :=
    Nat.ofDigitChars_ten_toDigits
  have hinteger : (Numeral.ofInt n).isInteger = true := rfl
  have hnegative : ((Numeral.ofInt n).negative = true) = (n < 0) := decide_eq_true_eq
  simp only [Numeral.value, if_pos hinteger, hvalue, hnegative]
  congr 1
  split <;> omega

/-! ## Between items -/

def blankGap : Gap :=
  [.space ' ' isSpace_space]

@[simp] theorem blankGap_text : Gap.text blankGap = [' '] :=
  rfl

theorem blankGap_isStrict : blankGap.IsStrict := by
  simp [blankGap, Gap.IsStrict, Filler.IsSpace]

abbrev Layout.lines (indent : Nat) : Layout :=
  { indent := some indent }

def openingGap (indent level : Nat) : Gap :=
  .space '\n' isSpace_newline :: List.replicate (indent * level) (.space ' ' isSpace_space)

theorem openingGap_isStrict (indent level : Nat) : (openingGap indent level).IsStrict := by
  intro f hf
  obtain rfl | hf := List.mem_cons.1 hf
  · trivial
  · obtain rfl := List.eq_of_mem_replicate hf
    trivial

theorem openingGap_text (indent level : Nat) :
    Gap.text (openingGap indent level) = (Layout.opening (.lines indent) level).toList := by
  have hblanks (k : Nat) :
      (List.replicate k (Filler.space ' ' isSpace_space)).flatMap Filler.text
        = List.replicate k ' ' := by
    induction k with
    | zero => rfl
    | succ k ih => rw [List.replicate_succ, List.flatMap_cons, ih]; rfl
  rw [openingGap, Gap.text, List.flatMap_cons, hblanks]
  simp [Layout.opening, Filler.text]

/-! ## Values -/

/-- Values without doubles whose objects have no key twice, and that nest so far at most. -/
def Nests : Nat → Json → Prop
  | _, null => True
  | _, bool _ => True
  | _, int _ => True
  | _, str _ => True
  | depth + 1, arr items => ∀ v ∈ items, Nests depth v
  | depth + 1, obj members => (members.map (·.1)).Nodup ∧ ∀ m ∈ members, Nests depth m.2
  | _, _ => False

@[simp] theorem nests_int (depth : Nat) (n : Int) : Nests depth (.int n) := by
  cases depth <;> trivial

@[simp] theorem nests_str (depth : Nat) (s : String) : Nests depth (.str s) := by
  cases depth <;> trivial

@[simp] theorem nests_arr {depth : Nat} {items : List Json} :
    Nests (depth + 1) (.arr items) ↔ ∀ v ∈ items, Nests depth v :=
  .rfl

@[simp] theorem nests_obj {depth : Nat} {members : List (String × Json)} :
    Nests (depth + 1) (.obj members)
      ↔ (members.map (·.1)).Nodup ∧ ∀ m ∈ members, Nests depth m.2 :=
  .rfl

structure Doc.Spells (d : Doc) (depth : Nat) (text : String) (j : Json) : Prop where
  strict : d.IsStrict
  text : d.text = text.toList
  value : d.value = j
  depth : d.depth ≤ depth
  width : d.width = j.width

theorem insertMember_of_nodup {before after : List (String × Json)} {m : String × Json}
    (h : ((before ++ m :: after).map (·.1)).Nodup) :
    insertMember before m.1 m.2 = before ++ [m] := by
  have hfresh : before.any (·.1 == m.1) = false := by
    rw [List.any_eq_false]
    intro n hn hkey
    rw [List.map_append, List.map_cons, List.nodup_middle, List.nodup_cons] at h
    exact h.1 (List.mem_append_left _ (List.mem_map.2 ⟨n, hn, beq_iff_eq.1 hkey⟩))
  rw [insertMember, hfresh]
  rfl

section
variable {indent level depth : Nat}

theorem exists_items (v : Json) (vs : List Json)
    (h : ∀ w ∈ v :: vs, ∃ d : Doc, d.Spells depth (writeAt (.lines indent) (level + 1) w) w) :
    ∃ items : Items, items.IsStrict ∧ items.values = v :: vs ∧ items.depth ≤ depth
      ∧ items.width = widthOfItems (v :: vs)
      ∧ items.text = (Layout.opening (.lines indent) (level + 1)
        ++ writeAt (.lines indent) (level + 1) v ++ writeItems (.lines indent) (level + 1) vs
        ++ Layout.opening (.lines indent) level).toList := by
  have hlead := openingGap_isStrict indent (level + 1)
  induction vs generalizing v with
  | nil =>
    obtain ⟨d, hd⟩ := h v List.mem_cons_self
    refine ⟨.last (openingGap indent (level + 1)) d (openingGap indent level) none,
      ⟨hlead, hd.strict, openingGap_isStrict indent level, rfl⟩, ?_, hd.depth, ?_, ?_⟩
    · rw [Items.values, hd.value]
    · simp [Items.width, hd.width, widthOfItems]
    · simp [Items.text, openingGap_text, hd.text, commaText, writeItems]
  | cons w ws ih =>
    obtain ⟨d, hd⟩ := h v List.mem_cons_self
    obtain ⟨rest, hstrict, hvalues, hdepth, hwidth, htext⟩ :=
      ih w fun u hu => h u (List.mem_cons_of_mem v hu)
    refine ⟨.cons (openingGap indent (level + 1)) d [] rest,
      ⟨hlead, hd.strict, Gap.isStrict_nil, hstrict⟩, ?_, max_le hd.depth hdepth, ?_, ?_⟩
    · rw [Items.values, hd.value, hvalues]
    · simp only [Items.width, hd.width, hwidth, widthOfItems]
    · simp [Items.text, openingGap_text, hd.text, writeItems, Layout.separator, htext]

/-- The members are added to those before them, and none has a key that is there. -/
theorem exists_members (m : String × Json) (ms : List (String × Json))
    (h : ∀ p ∈ m :: ms, ∃ d : Doc, d.Spells depth (writeAt (.lines indent) (level + 1) p.2) p.2) :
    ∃ members : Members, members.IsStrict
      ∧ (∀ before, ((before ++ m :: ms).map (·.1)).Nodup →
        members.addTo before = before ++ m :: ms)
      ∧ members.depth ≤ depth ∧ members.width = widthOfMembers (m :: ms)
      ∧ members.text = (Layout.opening (.lines indent) (level + 1) ++ quoted false m.1 ++ ": "
        ++ writeAt (.lines indent) (level + 1) m.2 ++ writeMembers (.lines indent) (level + 1) ms
        ++ Layout.opening (.lines indent) level).toList := by
  have hlead := openingGap_isStrict indent (level + 1)
  induction ms generalizing m with
  | nil =>
    obtain ⟨d, hd⟩ := h m List.mem_cons_self
    obtain ⟨q, hq, hkey⟩ := exists_quote m.1
    refine ⟨.last (openingGap indent (level + 1)) q [] blankGap d
      (openingGap indent level) none, ⟨hlead, Gap.isStrict_nil, blankGap_isStrict, hd.strict,
        openingGap_isStrict indent level, rfl⟩, ?_, hd.depth, ?_, ?_⟩
    · intro before hkeys
      rw [Members.addTo, hkey, hd.value, insertMember_of_nodup hkeys]
    · simp [Members.width, hd.width, widthOfMembers]
    · simp [Members.text, openingGap_text, hq, hd.text, commaText, writeMembers]
  | cons n ns ih =>
    obtain ⟨d, hd⟩ := h m List.mem_cons_self
    obtain ⟨q, hq, hkey⟩ := exists_quote m.1
    obtain ⟨rest, hstrict, hadd, hdepth, hwidth, htext⟩ :=
      ih n fun u hu => h u (List.mem_cons_of_mem m hu)
    refine ⟨.cons (openingGap indent (level + 1)) q [] blankGap d [] rest,
      ⟨hlead, Gap.isStrict_nil, blankGap_isStrict, hd.strict, Gap.isStrict_nil, hstrict⟩, ?_,
      max_le hd.depth hdepth, ?_, ?_⟩
    · intro before hkeys
      rw [Members.addTo, hkey, hd.value, insertMember_of_nodup hkeys,
        hadd _ (by rwa [← List.append_cons]), ← List.append_cons]
    · simp only [Members.width, hd.width, hwidth, widthOfMembers]
    · simp [Members.text, openingGap_text, hq, hd.text, writeMembers, Layout.separator, htext]

end

-- The recursion is on the depth: what an array or object holds is written one level further in.
theorem exists_doc (indent : Nat) : ∀ (depth level : Nat) (j : Json), Nests depth j →
    ∃ d : Doc, d.Spells depth (writeAt (.lines indent) level j) j
  | depth, level, null, _ => ⟨.null, trivial, rfl, rfl, Nat.zero_le _, rfl⟩
  | depth, level, bool b, _ => ⟨.bool b, trivial, rfl, rfl, Nat.zero_le _, rfl⟩
  | depth, level, int n, _ =>
    ⟨.number (.ofInt n), trivial, Numeral.ofInt_text n, Numeral.ofInt_value n, Nat.zero_le _, rfl⟩
  | depth, level, str s, _ => by
    obtain ⟨q, htext, hvalue⟩ := exists_quote s
    exact ⟨.string q, trivial, htext, congrArg Json.str hvalue, Nat.zero_le _, rfl⟩
  | depth, level, real x, h => by cases depth <;> exact h.elim
  | 0, level, arr vs, h => h.elim
  | 0, level, obj ms, h => h.elim
  | depth + 1, level, arr [], _ =>
    ⟨.emptyArray [], Gap.isStrict_nil, by simp [Doc.text, writeAt], rfl, Nat.le_add_left _ _, rfl⟩
  | depth + 1, level, arr (v :: vs), h => by
    obtain ⟨items, hstrict, hvalues, hdepth, hwidth, htext⟩ :=
      exists_items v vs fun w hw => exists_doc indent depth (level + 1) w (h w hw)
    refine ⟨.array items, hstrict, ?_, congrArg Json.arr hvalues, Nat.succ_le_succ hdepth, hwidth⟩
    simp [Doc.text, htext, writeAt]
  | depth + 1, level, obj [], _ =>
    ⟨.emptyObject [], Gap.isStrict_nil, by simp [Doc.text, writeAt], rfl, Nat.le_add_left _ _, rfl⟩
  | depth + 1, level, obj ((k, v) :: ms), h => by
    obtain ⟨members, hstrict, hadd, hdepth, hwidth, htext⟩ :=
      exists_members (k, v) ms fun m hm => exists_doc indent depth (level + 1) m.2 (h.2 m hm)
    refine ⟨.object members, hstrict, ?_, congrArg Json.obj (hadd [] h.1),
      Nat.succ_le_succ hdepth, hwidth⟩
    simp [Doc.text, htext, writeAt]

/-! ## Whole texts -/

theorem readWithin_write {j : Json} {depth : Nat} (h : Nests depth j) (indent : Nat)
    {limits : Limits} (hdepth : depth ≤ limits.depth) :
    readWithin limits (write (.lines indent) j) = .ok j ↔ Admits limits.digits j.width := by
  obtain ⟨d, hd⟩ := exists_doc indent depth 0 j h
  have hstrict : Document.IsStrict ⟨[], d, [], none⟩ :=
    ⟨Gap.isStrict_nil, hd.strict, Gap.isStrict_nil, rfl⟩
  have htext : Document.text ⟨[], d, [], none⟩ = write (.lines indent) j := by
    simp [Document.text, Document.chars, lastComment, hd.text, write]
  have hread := Document.readWithin_text hstrict limits
  rw [htext, Document.value, hd.value, hd.width] at hread
  rw [hread]
  exact and_iff_right (hd.depth.trans hdepth)

theorem writeWithin_eq_ok_iff {maxDigits : Option Nat} {l : Layout} {j : Json} {text : String} :
    writeWithin maxDigits l j = .ok text ↔ Admits maxDigits j.width ∧ write l j = text := by
  unfold writeWithin
  split
  · next hadmits => simp [hadmits]
  · next hlong => simp [hlong]

end CodeAtlas.Json
