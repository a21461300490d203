import CodeAtlas.Proofs.InputOrder
import CodeAtlas.Proofs.Literals

/-!
# What a fingerprint tells

Where no two of the texts that are digested have one digest, the fingerprint tells the message. The
message tells the files, the aliases and the options, unless a name in them holds one of the marks
that the message puts around it. The wildcard of an alias is not in the message.
-/

namespace CodeAtlas.Fingerprint

/-! ## Bytes -/

theorem byteArray_loop_eq (bytes : ByteArray) (i : Nat) (front : List UInt8) :
    ByteArray.toList.loop bytes i front = front.reverse ++ bytes.data.toList.drop i := by
  fun_induction ByteArray.toList.loop bytes i front with
  | case1 i front h ih =>
    have hi : i < bytes.data.toList.length := by simpa using h
    rw [ih, List.drop_eq_getElem_cons hi]
    simp [ByteArray.get!, h]
  | case2 i front h =>
    rw [List.drop_eq_nil_of_le (by simpa using Nat.le_of_not_lt h)]
    simp

theorem utf8_eq (s : String) : utf8 s = s.toList.flatMap String.utf8EncodeChar := by
  rw [utf8, String.toUTF8_eq_toByteArray, ← String.utf8Encode_toList, ByteArray.toList,
    byteArray_loop_eq]
  simp [List.utf8Encode]

theorem utf8_injective {s t : String} (h : utf8 s = utf8 t) : s = t := by
  have hbytes : s.toByteArray = t.toByteArray := by
    rw [← String.utf8Encode_toList, ← String.utf8Encode_toList, List.utf8Encode, List.utf8Encode,
      ← utf8_eq, ← utf8_eq, h]
  exact String.toByteArray_inj.1 hbytes

theorem zero_mem_utf8EncodeChar {c : Char} (h : 0 ∈ String.utf8EncodeChar c) : c = '\x00' := by
  have hzero : ∀ n, n < 256 → 0 = UInt8.ofNat n → n = 0 := by
    intro n hn h
    have := congrArg UInt8.toNat h
    simpa [Nat.mod_eq_of_lt hn] using this.symm
  have hval : c.val.toNat = 0 := by
    unfold String.utf8EncodeChar at h
    simp only at h
    split at h
    · exact hzero _ (by omega) (by simpa using h)
    · -- Every byte of a longer sequence has its highest bit set.
      split at h
      · simp only [List.mem_cons, List.not_mem_nil, or_false] at h
        rcases h with h | h <;> exact absurd (hzero _ (by omega) h) (by omega)
      · split at h
        · simp only [List.mem_cons, List.not_mem_nil, or_false] at h
          rcases h with h | h | h <;> exact absurd (hzero _ (by omega) h) (by omega)
        · simp only [List.mem_cons, List.not_mem_nil, or_false] at h
          rcases h with h | h | h | h <;> exact absurd (hzero _ (by omega) h) (by omega)
  exact Char.ext (UInt32.toNat_inj.1 hval)

theorem zero_notMem_utf8 {s : String} (h : '\x00' ∉ s.toList) : 0 ∉ utf8 s := by
  intro hmem
  rw [utf8_eq, List.mem_flatMap] at hmem
  obtain ⟨c, hc, hzero⟩ := hmem
  rw [zero_mem_utf8EncodeChar hzero] at hc
  exact h hc

/-! ## Digests -/

theorem hex_injective {a b : List UInt8} (h : hex a = hex b) : a = b := by
  have hdigit : ∀ {m n : Nat}, m < 16 → n < 16 → Json.hexDigit m = Json.hexDigit n → m = n := by
    intro m n hm hn h
    have hvalue := congrArg Json.hexValue? h
    rw [Json.hexValue?_hexDigit m hm, Json.hexValue?_hexDigit n hn] at hvalue
    exact Option.some.inj hvalue
  replace h := congrArg String.toList h
  simp only [hex, String.toList_ofList] at h
  induction a generalizing b with
  | nil =>
    cases b with
    | nil => rfl
    | cons y b => simp at h
  | cons x a ih =>
    cases b with
    | nil => simp at h
    | cons y b =>
      simp only [List.flatMap_cons, List.cons_append, List.nil_append, List.cons.injEq] at h
      have hx := x.toNat_lt
      have hy := y.toNat_lt
      have hhigh := hdigit (by omega) (by omega) h.1
      have hlow := hdigit (by omega) (by omega) h.2.1
      have hxy : x = y := UInt8.toNat_inj.1 (by omega)
      rw [hxy, ih h.2.2]

end CodeAtlas.Fingerprint

namespace CodeAtlas.Sha256

theorem round_length (state : List UInt32) (step : UInt32 × UInt32) :
    (round state step).length = state.length := by
  unfold round
  split <;> simp

theorem compress_length (state block : List UInt32) : (compress state block).length = state.length := by
  have hrounds : ∀ (steps : List (UInt32 × UInt32)) (state : List UInt32),
      (steps.foldl round state).length = state.length := by
    intro steps
    induction steps with
    | nil => intro state; rfl
    | cons step steps ih => intro state; rw [List.foldl_cons, ih, round_length]
  rw [compress, List.length_zipWith, hrounds, Nat.min_self]

theorem absorb_length (n : Nat) (state words : List UInt32) :
    (absorb n state words).length = state.length := by
  induction n generalizing state words with
  | zero => rfl
  | succ n ih => rw [absorb, ih, compress_length]

theorem hash_length (message : List UInt8) : (hash message).length = 32 := by
  simp [hash, bigEndian, absorb_length, initial]

end CodeAtlas.Sha256

namespace CodeAtlas.Fingerprint

/-! ## Files -/

theorem append_mark_inj {α : Type} [BEq α] [LawfulBEq α] {mark : α} {x y r s : List α} (hx : mark ∉ x)
    (hy : mark ∉ y) (h : x ++ mark :: r = y ++ mark :: s) : x = y ∧ r = s := by
  have hne : ∀ {z : List α}, mark ∉ z → ∀ a ∈ z, (a != mark) = true := by
    intro z hz a ha
    simp only [bne_iff_ne, ne_eq]
    rintro rfl
    exact hz ha
  obtain ⟨hxy, hrest⟩ := append_inj_of_stops (hne hx) (hne hy) (by simp) (by simp) h
  exact ⟨hxy, (List.cons.inj hrest).2⟩

theorem fileParts_inj {hash : List UInt8 → List UInt8} (hlength : ∀ m, (hash m).length = 32)
    {xs ys : List (String × String)} {t u : List UInt8} (hx : ∀ f ∈ xs, '\x00' ∉ f.1.toList)
    (hy : ∀ f ∈ ys, '\x00' ∉ f.1.toList) (ht : 0 ∉ t) (hu : 0 ∉ u)
    (hhash : ∀ x ∈ xs, ∀ y ∈ ys, hash (utf8 x.2) = hash (utf8 y.2) → utf8 x.2 = utf8 y.2)
    (h : xs.flatMap (filePart hash) ++ t = ys.flatMap (filePart hash) ++ u) : xs = ys ∧ t = u := by
  induction xs generalizing ys with
  | nil =>
    cases ys with
    | nil => exact ⟨rfl, h⟩
    | cons y ys =>
      refine absurd ?_ ht
      rw [List.flatMap_nil, List.nil_append] at h
      simp [h, filePart]
  | cons x xs ih =>
    cases ys with
    | nil =>
      refine absurd ?_ hu
      rw [List.flatMap_nil, List.nil_append] at h
      simp [← h, filePart]
    | cons y ys =>
      simp only [List.flatMap_cons, filePart, List.append_assoc, List.cons_append] at h
      obtain ⟨hpath, h⟩ := append_mark_inj (zero_notMem_utf8 (hx x (by simp)))
        (zero_notMem_utf8 (hy y (by simp))) h
      obtain ⟨hdigest, h⟩ := List.append_inj h (by rw [hlength, hlength])
      have htext := utf8_injective (hhash x (by simp) y (by simp) hdigest)
      obtain ⟨rfl, hrest⟩ := ih (fun f hf => hx f (by simp [hf])) (fun f hf => hy f (by simp [hf]))
        (fun x hx y hy => hhash x (by simp [hx]) y (by simp [hy])) h
      exact ⟨by rw [Prod.ext (utf8_injective hpath) htext], hrest⟩

/-! ## Aliases and options -/

def aliasMark : List Char := "alias:".toList

def optionMark : List Char := "opt:".toList

def aliasChars (a : Alias) : List Char :=
  aliasMark ++ (a.lead.toList ++ '*' :: (a.trail.toList ++ '=' :: ("|".intercalate a.targets).toList))

def optionChars (option : String × Json) : List Char :=
  optionMark ++ (option.1.toList ++ '=' :: option.2.literal.toList)

/-- An alias that can be read back from the message, but for its wildcard. -/
structure LegibleAlias (a : Alias) : Prop where
  nul : '\x00' ∉ aliasChars a
  lead : '*' ∉ a.lead.toList
  trail : '=' ∉ a.trail.toList
  nonempty : a.targets ≠ []
  bar : ∀ t ∈ a.targets, '|' ∉ t.toList
  marks : ∀ mark ∈ [aliasMark, optionMark], ¬ mark <:+: ("|".intercalate a.targets).toList

structure LegibleOption (option : String × Json) : Prop where
  nul : '\x00' ∉ option.1.toList
  equals : '=' ∉ option.1.toList
  exact : option.2.IsExact

def AtMark (cs : List Char) : Prop :=
  cs = [] ∨ ∃ mark ∈ [aliasMark, optionMark], ∃ rest, cs = mark ++ rest

/-- No mark starts inside another. -/
theorem marks_apart : ∀ mark ∈ [aliasMark, optionMark], ∀ i < mark.length, 0 < i →
    ∀ other ∈ [aliasMark, optionMark], ¬ mark.drop i <+: other ∧ ¬ other <+: mark.drop i := by
  decide

theorem eq_nil_of_atMark {x p s : List Char}
    (hx : ∀ mark ∈ [aliasMark, optionMark], ¬ mark <:+: x ++ p) (hr : AtMark (p ++ s))
    (hs : AtMark s) : p = [] := by
  by_contra hp
  obtain ⟨mark, hmark, rest, hrest⟩ := hr.resolve_left (by simp [hp])
  rcases List.append_eq_append_iff.1 hrest with ⟨back, hback, hs'⟩ | ⟨back, hback, -⟩
  · by_cases hempty : back = []
    · rw [hempty, List.append_nil] at hback
      exact hx mark hmark ⟨x, [], by simp [hback]⟩
    · -- The mark would end in a part of `s`, which starts with a mark of its own.
      obtain ⟨other, hother, rest', hrest'⟩ := hs.resolve_left (by simp [hs', hempty])
      have hdrop : mark.drop p.length = back := by simp [hback]
      have hlt : p.length < mark.length := by
        rw [hback, List.length_append]
        have := List.length_pos_of_ne_nil hempty
        omega
      have hapart := marks_apart mark hmark p.length hlt (List.length_pos_of_ne_nil hp) other hother
      rw [hdrop] at hapart
      have hfirst : back <+: s := ⟨rest, hs'.symm⟩
      have hsecond : other <+: s := ⟨rest', hrest'.symm⟩
      rcases List.prefix_or_prefix_of_prefix hfirst hsecond with h | h
      · exact hapart.1 h
      · exact hapart.2 h
  · exact hx mark hmark ⟨x, back, by simp [hback]⟩

theorem append_atMark_inj {x y r s : List Char}
    (hx : ∀ mark ∈ [aliasMark, optionMark], ¬ mark <:+: x)
    (hy : ∀ mark ∈ [aliasMark, optionMark], ¬ mark <:+: y) (hr : AtMark r) (hs : AtMark s)
    (h : x ++ r = y ++ s) : x = y ∧ r = s := by
  rcases List.append_eq_append_iff.1 h with ⟨p, rfl, rfl⟩ | ⟨p, rfl, rfl⟩
  · have hp := eq_nil_of_atMark hy hr hs
    simp [hp]
  · have hp := eq_nil_of_atMark hx hs hr
    simp [hp]

theorem optionChars_atMark (options : List (String × Json)) :
    AtMark (options.flatMap optionChars) := by
  cases options with
  | nil => exact .inl rfl
  | cons o options =>
    refine .inr ⟨optionMark, by simp, ?_⟩
    rw [List.flatMap_cons, optionChars, List.append_assoc]
    exact ⟨_, rfl⟩

theorem optionParts_inj {xs ys : List (String × Json)} (hx : ∀ o ∈ xs, LegibleOption o)
    (hy : ∀ o ∈ ys, LegibleOption o) (h : xs.flatMap optionChars = ys.flatMap optionChars) :
    xs = ys := by
  have hstops : ∀ options : List (String × Json),
      Stops Binary64.isNumeric (options.flatMap optionChars) := by
    intro options
    cases options with
    | nil => simp
    | cons o options => exact (stops_cons _ _ _).2 rfl
  induction xs generalizing ys with
  | nil =>
    cases ys with
    | nil => rfl
    | cons y ys => cases h
  | cons x xs ih =>
    cases ys with
    | nil => cases h
    | cons y ys =>
      have hlx := hx x (by simp)
      have hly := hy y (by simp)
      simp only [List.flatMap_cons, optionChars, List.append_assoc, List.cons_append] at h
      obtain ⟨hname, h⟩ := append_mark_inj hlx.equals hly.equals (List.append_cancel_left h)
      obtain ⟨hvalue, hrest⟩ := Json.literal_append_inj hlx.exact hly.exact (hstops xs) (hstops ys) h
      rw [Prod.ext (String.toList_inj.1 hname) hvalue,
        ih (fun o ho => hx o (by simp [ho])) (fun o ho => hy o (by simp [ho])) hrest]

/-- The alias without what the message leaves out. -/
def unmarked (a : Alias) : Alias := { a with wildcard := true }

theorem targets_inj {a b : Alias} (ha : LegibleAlias a) (hb : LegibleAlias b)
    (h : ("|".intercalate a.targets).toList = ("|".intercalate b.targets).toList) :
    a.targets = b.targets := by
  have hsplit : ∀ {c : Alias}, LegibleAlias c →
      List.splitOn '|' ("|".intercalate c.targets).toList = c.targets.map String.toList := by
    intro c hc
    rw [String.toList_intercalate]
    refine List.splitOn_intercalate '|' ?_ (by simpa using hc.nonempty)
    simpa using hc.bar
  have hlists : a.targets.map String.toList = b.targets.map String.toList := by
    rw [← hsplit ha, h, hsplit hb]
  exact List.map_injective_iff.2 (fun s t => String.toList_inj.1) hlists

theorem settings_inj {as bs : List Alias} {xs ys : List (String × Json)}
    (ha : ∀ a ∈ as, LegibleAlias a) (hb : ∀ b ∈ bs, LegibleAlias b)
    (hx : ∀ o ∈ xs, LegibleOption o) (hy : ∀ o ∈ ys, LegibleOption o)
    (h : as.flatMap aliasChars ++ xs.flatMap optionChars
      = bs.flatMap aliasChars ++ ys.flatMap optionChars) :
    as.map unmarked = bs.map unmarked ∧ xs = ys := by
  have hmark : ∀ (cs : List Alias) (options : List (String × Json)),
      AtMark (cs.flatMap aliasChars ++ options.flatMap optionChars) := by
    intro cs options
    cases cs with
    | nil => exact optionChars_atMark options
    | cons c cs =>
      refine .inr ⟨aliasMark, by simp, ?_⟩
      simp only [List.flatMap_cons, aliasChars, List.append_assoc]
      exact ⟨_, rfl⟩
  induction as generalizing bs with
  | nil =>
    cases bs with
    | nil => exact ⟨rfl, optionParts_inj hx hy h⟩
    | cons b bs =>
      -- Options and aliases start with different letters.
      cases xs <;> cases h
  | cons a as ih =>
    cases bs with
    | nil => cases ys <;> cases h
    | cons b bs =>
      have hla := ha a (by simp)
      have hlb := hb b (by simp)
      simp only [List.flatMap_cons, aliasChars, List.append_assoc, List.cons_append] at h
      obtain ⟨hlead, h⟩ := append_mark_inj hla.lead hlb.lead (List.append_cancel_left h)
      obtain ⟨htrail, h⟩ := append_mark_inj hla.trail hlb.trail h
      obtain ⟨htargets, h⟩ := append_atMark_inj hla.marks hlb.marks (hmark as xs) (hmark bs ys) h
      obtain ⟨haliases, hoptions⟩ := ih (fun c hc => ha c (by simp [hc]))
        (fun c hc => hb c (by simp [hc])) h
      refine ⟨?_, hoptions⟩
      rw [List.map_cons, List.map_cons, haliases, unmarked, unmarked, String.toList_inj.1 hlead,
        String.toList_inj.1 htrail, targets_inj hla hlb htargets]

/-! ## Messages -/

theorem message_eq (hash : List UInt8 → List UInt8) (files : FileMap) (aliases : List Alias)
    (options : List (String × Json)) :
    message hash files aliases options = (byName files).flatMap (filePart hash)
      ++ utf8 (String.ofList (aliases.flatMap aliasChars ++ (byName options).flatMap optionChars)) := by
  have halias (a : Alias) : aliasPart a = (aliasChars a).flatMap String.utf8EncodeChar := by
    have hchars : ("alias:" ++ a.lead ++ "*" ++ a.trail ++ "=" ++ "|".intercalate a.targets).toList =
        aliasChars a := by
      simp only [aliasChars, String.toList_append, List.append_assoc]
      rfl
    rw [aliasPart, utf8_eq, hchars]
  have hoption (o : String × Json) :
      optionPart o = (optionChars o).flatMap String.utf8EncodeChar := by
    have hchars : ("opt:" ++ o.1 ++ "=" ++ o.2.literal).toList = optionChars o := by
      simp only [optionChars, String.toList_append, List.append_assoc]
      rfl
    rw [optionPart, utf8_eq, hchars]
  simp only [message, funext halias, funext hoption, utf8_eq, String.toList_ofList,
    List.flatMap_append, List.flatMap_assoc, List.append_assoc]

structure Inputs where
  files : FileMap
  aliases : List Alias
  options : List (String × Json)

def CollisionFree (texts : List (List UInt8)) : Prop :=
  ∀ s ∈ texts, ∀ t ∈ texts, Sha256.hash s = Sha256.hash t → s = t

theorem CollisionFree.subset {texts all : List (List UInt8)} (h : CollisionFree all)
    (hsub : texts ⊆ all) : CollisionFree texts :=
  fun s hs t ht => h s (hsub hs) t (hsub ht)

namespace Inputs

variable {a b : Inputs} {maxDigits : Option Nat}

def message (a : Inputs) : List UInt8 :=
  Fingerprint.message Sha256.hash a.files a.aliases a.options

def fingerprint (maxDigits : Option Nat) (a : Inputs) : Except Json.WriteError String :=
  Fingerprint.fingerprint maxDigits a.files a.aliases a.options

def Fits (maxDigits : Option Nat) (a : Inputs) : Prop :=
  ∀ o ∈ a.options, Json.Admits maxDigits o.2.width

def texts (a : Inputs) : List (List UInt8) :=
  a.message :: a.files.map fun f => utf8 f.2

structure IsMaps (a : Inputs) : Prop where
  files : a.files.paths.Nodup
  options : (a.options.map (·.1)).Nodup

structure Legible (a : Inputs) : Prop where
  paths : ∀ f ∈ a.files, '\x00' ∉ f.1.toList
  aliases : ∀ c ∈ a.aliases, LegibleAlias c
  options : ∀ o ∈ a.options, LegibleOption o

/-- Equal as maps, and alias by alias. -/
structure Same (a b : Inputs) : Prop where
  files : a.files.Perm b.files
  aliases : a.aliases = b.aliases
  options : a.options.Perm b.options

/-- The same, but that an alias may have a wildcard here and none there. -/
structure Alike (a b : Inputs) : Prop where
  files : a.files.Perm b.files
  aliases : a.aliases.map unmarked = b.aliases.map unmarked
  options : a.options.Perm b.options

theorem fingerprint_of_fits (h : a.Fits maxDigits) :
    a.fingerprint maxDigits = .ok (hex (Sha256.hash a.message)) :=
  if_pos h

theorem fingerprint_of_not_fits (h : ¬ a.Fits maxDigits) : a.fingerprint maxDigits = .error .tooLong :=
  if_neg h

theorem fingerprint_eq_iff_message {maxDigits' : Option Nat} (ha : a.Fits maxDigits) (hb : b.Fits maxDigits')
    (h : CollisionFree (a.texts ++ b.texts)) :
    a.fingerprint maxDigits = b.fingerprint maxDigits' ↔ a.message = b.message := by
  rw [fingerprint_of_fits ha, fingerprint_of_fits hb, Except.ok.injEq]
  constructor
  · intro heq
    exact h _ (by simp [texts]) _ (by simp [texts]) (hex_injective heq)
  · intro heq
    rw [heq]

theorem aliasChars_unmarked (c : Alias) : aliasChars (unmarked c) = aliasChars c :=
  rfl

theorem message_of_alike (ha : a.IsMaps) (h : a.Alike b) : a.message = b.message := by
  have haliases : a.aliases.flatMap aliasChars = b.aliases.flatMap aliasChars := by
    have := congrArg (List.flatMap aliasChars) h.aliases
    simpa [List.flatMap_map, aliasChars_unmarked] using this
  rw [message, message, message_eq, message_eq, byName_eq_of_perm h.files ha.files,
    byName_eq_of_perm h.options ha.options, haliases]

theorem Legible.nul_notMem (h : a.Legible) : '\x00' ∉
    (String.ofList (a.aliases.flatMap aliasChars ++ (byName a.options).flatMap optionChars)).toList := by
  rw [String.toList_ofList, List.mem_append, List.mem_flatMap, List.mem_flatMap]
  rintro (⟨c, hc, hmem⟩ | ⟨o, ho, hmem⟩)
  · exact (h.aliases c hc).nul hmem
  · have ho := (h.options o ((List.mergeSort_perm _ _).mem_iff.1 ho)).nul
    simp [optionChars, optionMark, ho, Json.nul_notMem_literal] at hmem

theorem alike_of_message (ha : a.Legible) (hb : b.Legible) (hfree : CollisionFree (a.texts ++ b.texts))
    (h : a.message = b.message) : a.Alike b := by
  rw [message, message, message_eq, message_eq] at h
  have hsorted : ∀ {α : Type} (xs : List (String × α)), (byName xs).Perm xs := fun xs =>
    List.mergeSort_perm xs _
  have hhash : ∀ x ∈ byName a.files, ∀ y ∈ byName b.files,
      Sha256.hash (utf8 x.2) = Sha256.hash (utf8 y.2) → utf8 x.2 = utf8 y.2 := by
    intro x hx y hy
    have hx := (hsorted _).mem_iff.1 hx
    have hy := (hsorted _).mem_iff.1 hy
    refine hfree _ (List.mem_append_left _ (List.mem_cons_of_mem _ ?_)) _
      (List.mem_append_right _ (List.mem_cons_of_mem _ ?_))
    · exact List.mem_map.2 ⟨x, hx, rfl⟩
    · exact List.mem_map.2 ⟨y, hy, rfl⟩
  obtain ⟨hfiles, hsettings⟩ := fileParts_inj Sha256.hash_length
    (fun f hf => ha.paths f ((hsorted _).mem_iff.1 hf))
    (fun f hf => hb.paths f ((hsorted _).mem_iff.1 hf))
    (zero_notMem_utf8 ha.nul_notMem) (zero_notMem_utf8 hb.nul_notMem) hhash h
  obtain ⟨haliases, hoptions⟩ := settings_inj ha.aliases hb.aliases
    (fun o ho => ha.options o ((hsorted _).mem_iff.1 ho))
    (fun o ho => hb.options o ((hsorted _).mem_iff.1 ho))
    (by simpa using congrArg String.toList (utf8_injective hsettings))
  exact ⟨(hsorted _).symm.trans (hfiles ▸ hsorted _), haliases,
    (hsorted _).symm.trans (hoptions ▸ hsorted _)⟩

theorem Same.alike (h : a.Same b) : a.Alike b :=
  ⟨h.files, by rw [h.aliases], h.options⟩

theorem Alike.fits_iff (h : a.Alike b) : a.Fits maxDigits ↔ b.Fits maxDigits := by
  simp only [Fits, h.options.mem_iff]

theorem fingerprint_of_alike (ha : a.IsMaps) (h : a.Alike b) :
    a.fingerprint maxDigits = b.fingerprint maxDigits := by
  by_cases hfits : a.Fits maxDigits
  · rw [fingerprint_of_fits hfits, fingerprint_of_fits (h.fits_iff.1 hfits), message_of_alike ha h]
  · rw [fingerprint_of_not_fits hfits, fingerprint_of_not_fits (mt h.fits_iff.2 hfits)]

/-- Inputs that are equal have one fingerprint, and there is one if the options can be written. Then,
where no two texts have one digest, fingerprints are equal exactly if the messages are; and where the
messages can be read back, they are equal exactly if nothing but wildcards differ. -/
theorem fingerprint_eq_iff_alike (maxDigits : Option Nat) (ha : a.IsMaps) :
    (a.Same b → a.fingerprint maxDigits = b.fingerprint maxDigits)
      ∧ ((∃ digest, a.fingerprint maxDigits = .ok digest) ↔ a.Fits maxDigits)
      ∧ (a.Fits maxDigits → b.Fits maxDigits → CollisionFree (a.texts ++ b.texts) →
        (a.fingerprint maxDigits = b.fingerprint maxDigits ↔ a.message = b.message)
          ∧ (a.Legible → b.Legible →
            (a.fingerprint maxDigits = b.fingerprint maxDigits ↔ a.Alike b)
              ∧ ((a.fingerprint maxDigits = b.fingerprint maxDigits ↔ a.Same b)
                ↔ (a.Alike b → a.aliases = b.aliases)))) := by
  refine ⟨fun h => fingerprint_of_alike ha h.alike, ?_, fun hfits hfits' hfree => ?_⟩
  · by_cases hfits : a.Fits maxDigits
    · simp [fingerprint_of_fits hfits, hfits]
    · simp [fingerprint_of_not_fits hfits, hfits]
  have hmessage := fingerprint_eq_iff_message hfits hfits' hfree
  refine ⟨hmessage, fun hla hlb => ?_⟩
  have halike : a.fingerprint maxDigits = b.fingerprint maxDigits ↔ a.Alike b :=
    hmessage.trans ⟨alike_of_message hla hlb hfree, message_of_alike ha⟩
  refine ⟨halike, ?_⟩
  rw [halike]
  constructor
  · intro h hab
    exact (h.1 hab).aliases
  · intro h
    exact ⟨fun hab => ⟨hab.files, h hab, hab.options⟩, Same.alike⟩

def mapped (text : String) (wildcard : Bool) : Inputs where
  files := [("a.ts", text)]
  aliases := [⟨"@lib/", "", ["packages/lib"], wildcard⟩]
  options := [("max_files", .int 10), ("llm_enabled", .bool false)]

theorem mapped_isMaps (text : String) (wildcard : Bool) : (mapped text wildcard).IsMaps where
  files := by simp [mapped, FileMap.paths]
  options := by simp [mapped]

theorem mapped_legible (text : String) (wildcard : Bool) : (mapped text wildcard).Legible where
  paths := by
    simp only [mapped, List.mem_singleton, forall_eq]
    decide
  aliases := by
    simp only [mapped, List.mem_singleton, forall_eq]
    cases wildcard <;>
      exact ⟨by decide, by decide, by decide, by decide, by decide, by decide⟩
  options := by
    simp only [mapped, List.mem_cons, List.not_mem_nil, or_false, forall_eq_or_imp, forall_eq]
    exact ⟨⟨by decide, by decide, .int 10⟩, ⟨by decide, by decide, .bool false⟩⟩

theorem mapped_fits (text : String) (wildcard : Bool) : (mapped text wildcard).Fits (some 2) := by
  simp only [Fits, mapped]
  decide +kernel

theorem mapped_collisionFree :
    CollisionFree ((mapped "1" true).texts ++ (mapped "2" false).texts) := by
  have hoptions : byName [("max_files", Json.int 10), ("llm_enabled", .bool false)]
      = [("llm_enabled", .bool false), ("max_files", .int 10)] :=
    (byName_eq_of_perm (List.Perm.swap _ _ _) (by decide)).trans
      (List.mergeSort_of_pairwise (by simp))
  simp only [CollisionFree, texts, message, Fingerprint.message, mapped, hoptions]
  simp only [byName, List.mergeSort_singleton]
  decide +kernel

/-- The texts differ, so the fingerprints do. -/
theorem fingerprint_ne_of_texts :
    (mapped "1" true).IsMaps ∧ (mapped "1" true).Legible ∧ (mapped "2" false).Legible
      ∧ CollisionFree ((mapped "1" true).texts ++ (mapped "2" false).texts)
      ∧ (mapped "1" true).fingerprint (some 2) ≠ (mapped "2" false).fingerprint (some 2) := by
  have hmaps := mapped_isMaps "1" true
  have hfirst := mapped_legible "1" true
  have hsecond := mapped_legible "2" false
  have hfree := mapped_collisionFree
  refine ⟨hmaps, hfirst, hsecond, hfree, fun heq => ?_⟩
  obtain ⟨-, -, htell⟩ := fingerprint_eq_iff_alike (some 2) hmaps
  have halike := ((htell (mapped_fits _ _) (mapped_fits _ _) hfree).2 hfirst hsecond).1.1 heq
  exact absurd halike.files (by decide)

/-- An alias for its lead alone has the fingerprint of one with a wildcard. -/
theorem fingerprint_of_exact_alias :
    ¬ ((mapped "1" true).fingerprint (some 2) = (mapped "1" false).fingerprint (some 2)
      ↔ (mapped "1" true).Same (mapped "1" false)) := by
  intro h
  have hsame := h.1 rfl
  exact absurd hsame.aliases (by decide)

end Inputs

end CodeAtlas.Fingerprint
