import CodeAtlas.Text.Lower
import Mathlib.Data.Char
import Mathlib.Tactic.Common

/-!
# Texts in lower case

The lower case of a capital is no capital (`isLower_of_mem_lower`), so a text in lower case stays as it is
(`lower_of_isLower`).
Nothing but a dot becomes a dot, and a dot stays one: the dots of a text are those of its lower case
(`count_dot_lower`, `lower_starts_with_dot`).
-/

namespace CodeAtlas.Text

/-! ## Runs of capitals -/

def InRun (run : Nat × Nat × Nat × Int) (n : Nat) : Prop :=
  run.1 ≤ n ∧ n ≤ run.2.1 ∧ (n - run.1) % run.2.2.1 = 0

/-- The lower case of a run, as its first and last code point and the distance between neighbours. -/
def lowered (run : Nat × Nat × Nat × Int) : Nat × Nat × Nat :=
  ((run.1 + run.2.2.2).toNat, (run.2.1 + run.2.2.2).toNat, run.2.2.1)

def isApart (low : Nat × Nat × Nat) (run : Nat × Nat × Nat × Int) : Bool :=
  bif Nat.ble run.1 low.2.1 then
    bif Nat.ble low.1 run.2.1 then
      (low.2.2 == 2 || low.1 == low.2.1) && run.2.2.1 == 2 && (low.1 + run.1) % 2 == 1
    else true
  else true

/-- Above the capitals of ASCII, beside the capital I with a dot, and in the range of characters. -/
def isPlain (low : Nat × Nat × Nat) : Bool :=
  Nat.ble 97 low.1 && (Nat.blt low.2.1 0x130 || Nat.blt 0x130 low.1)
    && (Nat.blt low.2.1 0xd800 || Nat.blt 0xdfff low.1 && Nat.blt low.2.1 0x110000)

theorem capitalRuns_checked :
    (capitalRuns.all fun run => isPlain (lowered run) && capitalRuns.all (isApart (lowered run))) = true := by
  decide +kernel

theorem lowered_bounds {run : Nat × Nat × Nat × Int} {n : Nat} (hplain : isPlain (lowered run) = true)
    (hn : InRun run n) : ∃ m : Nat, (n + run.2.2.2 : Int) = m ∧ 97 ≤ m ∧ m ≠ 0x130 ∧ m.isValidChar := by
  obtain ⟨first, last, step, shift⟩ := run
  simp only [isPlain, lowered, Bool.and_eq_true, Bool.or_eq_true, Nat.ble_eq, Nat.blt_eq] at hplain
  obtain ⟨hfirst, hlast, -⟩ := hn
  simp only at hfirst hlast ⊢
  refine ⟨(n + shift).toNat, ?_, ?_, ?_, ?_⟩
  · omega
  · omega
  · omega
  · unfold Nat.isValidChar
    omega

theorem not_inRun_of_isApart {run other : Nat × Nat × Nat × Int} {n m : Nat}
    (hplain : isPlain (lowered run) = true) (hapart : isApart (lowered run) other = true) (hn : InRun run n)
    (hm : (n + run.2.2.2 : Int) = m) : ¬ InRun other m := by
  obtain ⟨first, last, step, shift⟩ := run
  obtain ⟨first', last', step', shift'⟩ := other
  rintro ⟨hfirst', hlast', hstep'⟩
  obtain ⟨hfirst, hlast, hstep⟩ := hn
  simp only [isPlain, isApart, lowered, Bool.and_eq_true, Bool.or_eq_true, Nat.ble_eq, Nat.blt_eq,
    Bool.cond_eq_ite] at *
  have hbelow : first' ≤ (last + shift).toNat := by omega
  have habove : (first + shift).toNat ≤ last' := by omega
  rw [if_pos hbelow, if_pos habove] at hapart
  simp only [Bool.and_eq_true, Bool.or_eq_true, beq_iff_eq] at hapart
  obtain ⟨⟨rfl | hone, rfl⟩, hodd⟩ := hapart
  · omega
  · omega

/-! ## Characters -/

theorem lowerChar_of_run {c : Char} (h : 0x80 ≤ c.toNat) :
    (∃ run ∈ capitalRuns, InRun run c.toNat ∧ lowerChar c = Char.ofNat (c.toNat + run.2.2.2).toNat) ∨
    (∀ run ∈ capitalRuns, ¬ InRun run c.toNat) ∧ lowerChar c = c := by
  have hascii : ¬ c.val < 0x80 := by
    rw [UInt32.lt_iff_toNat_lt]
    exact Nat.not_lt.mpr h
  generalize hlower : lowerChar c = d
  rw [lowerChar, if_neg hascii] at hlower
  dsimp only at hlower
  split at hlower
  · rename_i first last step shift hfind
    refine .inl ⟨(first, last, step, shift), List.mem_of_find?_eq_some hfind, ?_, hlower.symm⟩
    simpa [InRun, and_assoc] using List.find?_some hfind
  · rename_i hfind
    refine .inr ⟨fun run hrun hin => ?_, hlower.symm⟩
    exact List.find?_eq_none.mp hfind run hrun (by simpa [InRun, and_assoc] using hin)

/-- The character is its own lower case, in every place of a text. -/
structure IsLower (c : Char) : Prop where
  lowerChar_eq : lowerChar c = c
  ne_dotted : c ≠ '\u0130'

instance (c : Char) : Decidable (IsLower c) :=
  decidable_of_iff (lowerChar c = c ∧ c ≠ '\u0130') ⟨fun h => ⟨h.1, h.2⟩, fun h => ⟨h.1, h.2⟩⟩

theorem isLower_of_ascii : ∀ n < 0x80, IsLower (lowerChar (Char.ofNat n)) ∧
    (lowerChar (Char.ofNat n) = '.' ↔ n = 46) ∧ (97 ≤ n → IsLower (Char.ofNat n)) := by
  decide +kernel

theorem lowerChar_of_inRun {c : Char} {run : Nat × Nat × Nat × Int} (hrun : run ∈ capitalRuns)
    (hin : InRun run c.toNat) (hlower : lowerChar c = Char.ofNat (c.toNat + run.2.2.2).toNat) :
    IsLower (lowerChar c) ∧ lowerChar c ≠ '.' := by
  have hchecked := List.all_eq_true.mp capitalRuns_checked run hrun
  rw [Bool.and_eq_true, List.all_eq_true] at hchecked
  obtain ⟨m, hm, hlow, hdotted, hvalid⟩ := lowered_bounds hchecked.1 hin
  rw [hm, Int.toNat_natCast] at hlower
  have hvalue : (lowerChar c).toNat = m := by
    rw [hlower, Char.ofNat, dif_pos hvalid]
    rfl
  have hne : ∀ d : Char, d.toNat ≠ m → lowerChar c ≠ d := by
    rintro d hd heq
    exact hd (by rw [← heq, hvalue])
  refine ⟨⟨?_, hne _ (by simpa using hdotted.symm)⟩, hne _ (by simp; omega)⟩
  by_cases hascii : m < 0x80
  · rw [hlower]
    exact ((isLower_of_ascii m hascii).2.2 hlow).lowerChar_eq
  · rcases lowerChar_of_run (c := lowerChar c) (by omega) with ⟨other, hother, hin', -⟩ | ⟨-, hsame⟩
    · rw [hvalue] at hin'
      exact absurd hin' (not_inRun_of_isApart hchecked.1 (hchecked.2 other hother) hin hm)
    · exact hsame

theorem isLower_lowerChar {c : Char} (h : c ≠ '\u0130') : IsLower (lowerChar c) := by
  by_cases hascii : c.toNat < 0x80
  · simpa using (isLower_of_ascii c.toNat hascii).1
  · rcases lowerChar_of_run (Nat.not_lt.mp hascii) with ⟨run, hrun, hin, hlower⟩ | ⟨-, hlower⟩
    · exact (lowerChar_of_inRun hrun hin hlower).1
    · rw [hlower]
      exact ⟨hlower, h⟩

theorem lowerChar_eq_dot_iff (c : Char) : lowerChar c = '.' ↔ c = '.' := by
  refine ⟨fun h => ?_, by rintro rfl; decide⟩
  by_cases hascii : c.toNat < 0x80
  · have hdot := ((isLower_of_ascii c.toNat hascii).2.1).mp (by simpa using h)
    rw [← Char.ofNat_toNat c, hdot]
  · rcases lowerChar_of_run (Nat.not_lt.mp hascii) with ⟨run, hrun, hin, hlower⟩ | ⟨-, hlower⟩
    · exact absurd h (lowerChar_of_inRun hrun hin hlower).2
    · rw [← hlower, h]

/-! ## Texts -/

/-- What stands for a character in the lower case of a text. -/
theorem lowerFrom_cons (before : List Char) (c : Char) (rest : List Char) :
    ∃ d ds, lowerFrom before (c :: rest) = d :: ds ++ lowerFrom (c :: before) rest ∧
      (∀ x ∈ d :: ds, IsLower x) ∧ (IsLower c → d = c ∧ ds = []) ∧ (d = '.' ↔ c = '.') ∧ '.' ∉ ds := by
  rw [lowerFrom]
  by_cases hdotted : c = '\u0130'
  · subst hdotted
    have hletter : IsLower 'i' := by decide
    have hdot : IsLower '\u0307' := by decide
    exact ⟨'i', ['\u0307'], rfl, by simp [hletter, hdot], by decide, by decide, by decide⟩
  · rw [if_neg (by simpa using hdotted)]
    by_cases hsigma : (c == '\u03a3' && meetsCased before && !meetsCased rest) = true
    · rw [if_pos hsigma]
      obtain rfl : c = '\u03a3' := by simp_all
      have hfinal : IsLower '\u03c2' := by decide
      exact ⟨'\u03c2', [], rfl, by simp [hfinal], by decide, by decide, by decide⟩
    · rw [if_neg hsigma]
      refine ⟨lowerChar c, [], rfl, ?_, fun h => ⟨h.lowerChar_eq, rfl⟩, lowerChar_eq_dot_iff c, by simp⟩
      simpa using isLower_lowerChar hdotted

theorem isLower_of_mem_lowerFrom (cs before : List Char) : ∀ c ∈ lowerFrom before cs, IsLower c := by
  induction cs generalizing before with
  | nil => simp [lowerFrom]
  | cons c rest ih =>
    obtain ⟨d, ds, hcons, hlower, -⟩ := lowerFrom_cons before c rest
    rw [hcons]
    intro x hx
    rcases List.mem_append.mp hx with hx | hx
    · exact hlower x hx
    · exact ih _ x hx

theorem lowerFrom_of_isLower (cs before : List Char) (h : ∀ c ∈ cs, IsLower c) :
    lowerFrom before cs = cs := by
  induction cs generalizing before with
  | nil => rfl
  | cons c rest ih =>
    obtain ⟨hc, hrest⟩ := List.forall_mem_cons.mp h
    obtain ⟨d, ds, hcons, -, hsame, -⟩ := lowerFrom_cons before c rest
    obtain ⟨rfl, rfl⟩ := hsame hc
    rw [hcons, ih _ hrest]
    rfl

theorem count_dot_lowerFrom (cs before : List Char) : (lowerFrom before cs).count '.' = cs.count '.' := by
  induction cs generalizing before with
  | nil => rfl
  | cons c rest ih =>
    obtain ⟨d, ds, hcons, -, -, hdot, hnone⟩ := lowerFrom_cons before c rest
    rw [hcons, List.count_append, ih, List.count_cons, List.count_eq_zero.mpr hnone, List.count_cons]
    simp only [beq_iff_eq, hdot]
    omega

theorem isLower_of_mem_lower {s : String} {c : Char} (h : c ∈ (lower s).toList) : IsLower c := by
  rw [lower, String.toList_ofList] at h
  exact isLower_of_mem_lowerFrom s.toList [] c h

theorem lower_of_isLower {s : String} (h : ∀ c ∈ s.toList, IsLower c) : lower s = s := by
  rw [lower, lowerFrom_of_isLower s.toList [] h, String.ofList_toList]

theorem count_dot_lower (s : String) : (lower s).toList.count '.' = s.toList.count '.' := by
  rw [lower, String.toList_ofList, count_dot_lowerFrom]

theorem lower_starts_with_dot {s : String} {cs : List Char} (h : (lower s).toList = '.' :: cs) :
    ∃ rest, s.toList = '.' :: rest := by
  rw [lower, String.toList_ofList] at h
  cases hs : s.toList with
  | nil =>
    rw [hs] at h
    cases h
  | cons c rest =>
    obtain ⟨d, ds, hcons, -, -, hdot, -⟩ := lowerFrom_cons [] c rest
    rw [hs, hcons, List.cons_append, List.cons.injEq] at h
    exact ⟨rest, by rw [hdot.mp h.1]⟩

end CodeAtlas.Text
