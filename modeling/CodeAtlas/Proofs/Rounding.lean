import CodeAtlas.Number.Binary64
import Mathlib.Algebra.Order.Field.Power
import Mathlib.Data.Rat.Floor
import Mathlib.Tactic.Linarith
import Mathlib.Tactic.NormNum
import Mathlib.Tactic.Positivity
import Mathlib.Tactic.Ring
import Mathlib.Tactic.Zify

/-!
# Rounding to the nearest double

A quotient is scaled until it has 53 binary digits, or down to the scale of the least double, and then
rounded. Larger numbers have no smaller nearest double (`ofRat_mono`), and so a difference of doubles
grows with the larger one and with the distance of the smaller one (`sub_mono`).
-/

namespace CodeAtlas.Binary64

theorem roundDiv_one (k : Nat) : roundDiv k 1 = k := by
  simp [roundDiv, Nat.mod_one]

theorem le_roundDiv (n k : Nat) : n / k ≤ roundDiv n k := by
  unfold roundDiv
  dsimp only
  split
  · omega
  · split
    · omega
    · split <;> omega

theorem roundDiv_le (n k : Nat) : roundDiv n k ≤ n / k + 1 := by
  unfold roundDiv
  dsimp only
  split
  · omega
  · split
    · omega
    · split <;> omega

/-- With one whole part, the remainders decide. -/
theorem roundDiv_le_of_div_eq {a b c d : Nat} (hq : c / d = a / b)
    (hhalf : b ≤ 2 * (a % b) → d ≤ 2 * (c % d)) (hmore : b < 2 * (a % b) → d < 2 * (c % d)) :
    roundDiv a b ≤ roundDiv c d := by
  by_cases hless : 2 * (a % b) < b
  · have hdown : roundDiv a b = a / b := if_pos hless
    rw [hdown, ← hq]
    exact le_roundDiv c d
  · have hnotless : ¬ 2 * (c % d) < d := Nat.not_lt.mpr (hhalf (Nat.not_lt.mp hless))
    unfold roundDiv
    dsimp only
    rw [hq, if_neg hless, if_neg hnotless]
    by_cases hup : b < 2 * (a % b)
    · rw [if_pos hup, if_pos (hmore hup)]
    · rw [if_neg hup]
      by_cases heven : (a / b % 2 == 0) = true
      · rw [if_pos heven]
        split <;> omega
      · rw [if_neg heven]
        split <;> omega

theorem roundDiv_mono {a b c d : Nat} (hb : 0 < b) (hd : 0 < d) (h : a * d ≤ c * b) :
    roundDiv a b ≤ roundDiv c d := by
  have hle : a / b ≤ c / d := by
    rw [Nat.le_div_iff_mul_le hd]
    apply Nat.le_of_mul_le_mul_right _ hb
    calc a / b * d * b = a / b * b * d := by ring
      _ ≤ a * d := Nat.mul_le_mul_right d (Nat.div_mul_le_self a b)
      _ ≤ c * b := h
  rcases Nat.lt_or_eq_of_le hle with hlt | heq
  · calc roundDiv a b ≤ a / b + 1 := roundDiv_le a b
      _ ≤ c / d := hlt
      _ ≤ roundDiv c d := le_roundDiv c d
  · have hrem : a % b * d ≤ c % d * b := by
      have ha := Nat.div_add_mod a b
      have hc := Nat.div_add_mod c d
      rw [← heq] at hc
      have h1 : (b * (a / b) + a % b) * d ≤ (d * (a / b) + c % d) * b := by rw [ha, hc]; exact h
      nlinarith
    have htwice : d * (2 * (a % b)) ≤ 2 * (c % d) * b := by
      calc d * (2 * (a % b)) = 2 * (a % b * d) := by ring
        _ ≤ 2 * (c % d * b) := Nat.mul_le_mul_left 2 hrem
        _ = 2 * (c % d) * b := by ring
    apply roundDiv_le_of_div_eq heq.symm
    · intro hhalf
      apply Nat.le_of_mul_le_mul_right _ hb
      exact (Nat.mul_le_mul_left d hhalf).trans htwice
    · intro hmore
      apply Nat.lt_of_mul_lt_mul_right (a := b)
      exact (Nat.mul_lt_mul_of_pos_left hmore hd).trans_le htwice

/-! ## Scales -/

/-- The scale of a quotient is that of 53 binary digits, unless it is that of the least double. -/
structure Scaled (num den : Nat) (q : Int) : Prop where
  least : -1074 ≤ q
  lt : (num : ℚ) / den < 2 ^ (q + 53)
  le : -1074 < q → (2 : ℚ) ^ (q + 52) ≤ num / den

theorem fits_iff (num : Nat) {den : Nat} (hden : 0 < den) (q : Int) :
    (if 0 ≤ q then decide (num < den * Nat.pow 2 (q.toNat + 53))
      else decide (num * Nat.pow 2 (-q).toNat < den * Nat.pow 2 53)) = true ↔
      (num : ℚ) / den < 2 ^ (q + 53) := by
  have hden' : (0 : ℚ) < den := by exact_mod_cast hden
  rw [div_lt_iff₀ hden']
  split
  · next h =>
    have hexp : (2 : ℚ) ^ (q + 53) = ((2 ^ (q.toNat + 53) : Nat) : ℚ) := by
      rw [Nat.cast_pow, Nat.cast_ofNat, ← zpow_natCast]
      congr 1
      omega
    rw [hexp, mul_comm, decide_eq_true_iff]
    exact_mod_cast Iff.rfl
  · next h =>
    have hpos : (0 : ℚ) < 2 ^ (-q).toNat := by positivity
    have hexp : (2 : ℚ) ^ (q + 53) * 2 ^ (-q).toNat = 2 ^ 53 := by
      rw [← zpow_natCast, ← zpow_add₀ (by norm_num)]
      have : q + 53 + ((-q).toNat : Int) = 53 := by omega
      rw [this]
      norm_num
    rw [← mul_lt_mul_iff_left₀ hpos, mul_right_comm, hexp, mul_comm (2 ^ 53 : ℚ), decide_eq_true_iff]
    exact_mod_cast Iff.rfl

theorem quotient_bounds {num den : Nat} (hnum : 0 < num) (hden : 0 < den) :
    (2 : ℚ) ^ ((Nat.log2 num : Int) - Nat.log2 den - 1) < num / den ∧
      (num : ℚ) / den < 2 ^ ((Nat.log2 num : Int) - Nat.log2 den + 1) := by
  have hden' : (0 : ℚ) < den := by exact_mod_cast hden
  have hlow (n : Nat) (hn : 0 < n) : (2 : ℚ) ^ (Nat.log2 n : Int) ≤ n := by
    rw [zpow_natCast]
    exact_mod_cast Nat.log2_self_le (Nat.pos_iff_ne_zero.mp hn)
  have hhigh (n : Nat) : (n : ℚ) < 2 ^ ((Nat.log2 n : Int) + 1) := by
    have := Nat.lt_log2_self (n := n)
    have h2 : (n : ℚ) < (2 ^ (Nat.log2 n + 1) : Nat) := by exact_mod_cast this
    rw [← Nat.cast_succ, zpow_natCast]
    exact_mod_cast h2
  constructor
  · rw [lt_div_iff₀ hden']
    calc (2 : ℚ) ^ ((Nat.log2 num : Int) - Nat.log2 den - 1) * den
        < 2 ^ ((Nat.log2 num : Int) - Nat.log2 den - 1) * 2 ^ ((Nat.log2 den : Int) + 1) :=
          mul_lt_mul_of_pos_left (hhigh den) (by positivity)
      _ = 2 ^ (Nat.log2 num : Int) := by rw [← zpow_add₀ (by norm_num)]; congr 1; omega
      _ ≤ num := hlow num hnum
  · rw [div_lt_iff₀ hden']
    calc (num : ℚ) < 2 ^ ((Nat.log2 num : Int) + 1) := hhigh num
      _ = 2 ^ ((Nat.log2 num : Int) - Nat.log2 den + 1) * 2 ^ (Nat.log2 den : Int) := by
          rw [← zpow_add₀ (by norm_num)]; congr 1; omega
      _ ≤ 2 ^ ((Nat.log2 num : Int) - Nat.log2 den + 1) * den :=
          mul_le_mul_of_nonneg_left (hlow den hden) (by positivity)

theorem scaleOf_scaled {num den : Nat} (hnum : 0 < num) (hden : 0 < den) :
    Scaled num den (scaleOf num den) := by
  obtain ⟨hlow, hhigh⟩ := quotient_bounds hnum hden
  have hfits := fits_iff num hden
  have hguess : ∃ q : Int, scaleOf num den = max q (-1074) ∧ (num : ℚ) / den < 2 ^ (q + 53) ∧
      (2 : ℚ) ^ (q + 52) ≤ num / den := by
    unfold scaleOf
    dsimp only
    by_cases h : (num : ℚ) / den < 2 ^ ((Nat.log2 num : Int) - Nat.log2 den - 52 - 1 + 53)
    · refine ⟨_, by rw [if_pos ((hfits _).mpr h)], h, ?_⟩
      have hexp : (Nat.log2 num : Int) - Nat.log2 den - 52 - 1 + 52 =
          (Nat.log2 num : Int) - Nat.log2 den - 1 := by omega
      rw [hexp]
      exact hlow.le
    · have h' : (num : ℚ) / den < 2 ^ ((Nat.log2 num : Int) - Nat.log2 den - 52 + 53) := by
        have hexp : (Nat.log2 num : Int) - Nat.log2 den - 52 + 53 =
            (Nat.log2 num : Int) - Nat.log2 den + 1 := by omega
        rw [hexp]
        exact hhigh
      refine ⟨_, by rw [if_neg (mt (hfits _).mp h), if_pos ((hfits _).mpr h')], h', ?_⟩
      have hexp : (Nat.log2 num : Int) - Nat.log2 den - 52 + 52 =
          (Nat.log2 num : Int) - Nat.log2 den - 52 - 1 + 53 := by omega
      rw [hexp]
      exact not_lt.mp h
  obtain ⟨q, hq, hlt, hle⟩ := hguess
  rw [hq]
  have hmono {a b : Int} (h : a ≤ b) : (2 : ℚ) ^ a ≤ 2 ^ b := zpow_le_zpow_right₀ (by norm_num) h
  refine ⟨le_max_right _ _, hlt.trans_le (hmono (by omega)), fun h => ?_⟩
  have : max q (-1074) = q := by omega
  rw [this]
  exact hle

/-! ## Mantissas -/

def mantissaAt (num den : Nat) (q : Int) : Nat :=
  roundDiv (num * 2 ^ (-q).toNat) (den * 2 ^ q.toNat)

/-- The rounded quotient, before it is seen whether a double can hold it. -/
def rounded (num den : Nat) : ℚ :=
  mantissaAt num den (scaleOf num den) * 2 ^ scaleOf num den

theorem mantissaAt_mono {num den num' den' : Nat} (hden : 0 < den) (hden' : 0 < den')
    (h : num * den' ≤ num' * den) (q : Int) : mantissaAt num den q ≤ mantissaAt num' den' q := by
  apply roundDiv_mono (by positivity) (by positivity)
  calc num * 2 ^ (-q).toNat * (den' * 2 ^ q.toNat) = num * den' * (2 ^ (-q).toNat * 2 ^ q.toNat) := by ring
    _ ≤ num' * den * (2 ^ (-q).toNat * 2 ^ q.toNat) := Nat.mul_le_mul_right _ h
    _ = num' * 2 ^ (-q).toNat * (den * 2 ^ q.toNat) := by ring

theorem two_zpow_eq (q : Int) : (2 : ℚ) ^ q = 2 ^ q.toNat / 2 ^ (-q).toNat := by
  rw [← zpow_natCast, ← zpow_natCast, ← zpow_sub₀ (by norm_num)]
  congr 1
  omega

theorem mantissaAt_le {num den : Nat} (hden : 0 < den) {q : Int} {k : Nat}
    (h : (num : ℚ) / den ≤ k * 2 ^ q) : mantissaAt num den q ≤ k := by
  have hden' : (0 : ℚ) < den := by exact_mod_cast hden
  rw [← roundDiv_one k]
  apply roundDiv_mono (by positivity) Nat.one_pos
  rw [two_zpow_eq, div_le_iff₀ hden', mul_div_assoc', div_mul_eq_mul_div,
    le_div_iff₀ (by positivity)] at h
  have h' : num * 2 ^ (-q).toNat ≤ k * 2 ^ q.toNat * den := by exact_mod_cast h
  linarith

theorem le_mantissaAt {num den : Nat} (hden : 0 < den) {q : Int} {k : Nat}
    (h : k * (2 : ℚ) ^ q ≤ num / den) : k ≤ mantissaAt num den q := by
  have hden' : (0 : ℚ) < den := by exact_mod_cast hden
  rw [← roundDiv_one k]
  apply roundDiv_mono Nat.one_pos (by positivity)
  rw [two_zpow_eq, le_div_iff₀ hden', mul_div_assoc', div_mul_eq_mul_div,
    div_le_iff₀ (by positivity)] at h
  have h' : k * 2 ^ q.toNat * den ≤ num * 2 ^ (-q).toNat := by exact_mod_cast h
  linarith

section
variable {num den : Nat} (hnum : 0 < num) (hden : 0 < den)
include hnum hden

theorem mantissa_le : mantissaAt num den (scaleOf num den) ≤ 2 ^ 53 := by
  apply mantissaAt_le hden
  have h := (scaleOf_scaled hnum hden).lt.le
  rw [zpow_add₀ (by norm_num), mul_comm] at h
  exact_mod_cast h

theorem le_mantissa (h : -1074 < scaleOf num den) :
    2 ^ 52 ≤ mantissaAt num den (scaleOf num den) := by
  apply le_mantissaAt hden
  have h := (scaleOf_scaled hnum hden).le h
  rw [zpow_add₀ (by norm_num), mul_comm] at h
  exact_mod_cast h

end

theorem rounded_mono {num den num' den' : Nat} (hnum : 0 < num) (hden : 0 < den) (hnum' : 0 < num')
    (hden' : 0 < den') (h : num * den' ≤ num' * den) : rounded num den ≤ rounded num' den' := by
  have hs := scaleOf_scaled hnum hden
  have hs' := scaleOf_scaled hnum' hden'
  have hle : (num : ℚ) / den ≤ num' / den' := by
    rw [div_le_div_iff₀ (by positivity) (by positivity)]
    exact_mod_cast h
  unfold rounded
  rcases lt_trichotomy (scaleOf num den) (scaleOf num' den') with hlt | heq | hgt
  · -- the larger one has all its digits
    have hm : (mantissaAt num den (scaleOf num den) : ℚ) ≤ 2 ^ 53 := by
      exact_mod_cast mantissa_le hnum hden
    have hm' : (2 : ℚ) ^ 52 ≤ mantissaAt num' den' (scaleOf num' den') := by
      exact_mod_cast le_mantissa hnum' hden' (lt_of_le_of_lt hs.least hlt)
    have hpow : (2 : ℚ) ^ scaleOf num den * 2 ≤ 2 ^ scaleOf num' den' := by
      rw [← zpow_add_one₀ (by norm_num)]
      exact zpow_le_zpow_right₀ (by norm_num) hlt
    calc (mantissaAt num den (scaleOf num den) : ℚ) * 2 ^ scaleOf num den
        ≤ 2 ^ 53 * 2 ^ scaleOf num den := mul_le_mul_of_nonneg_right hm (by positivity)
      _ = 2 ^ 52 * (2 ^ scaleOf num den * 2) := by ring
      _ ≤ 2 ^ 52 * 2 ^ scaleOf num' den' := mul_le_mul_of_nonneg_left hpow (by positivity)
      _ ≤ mantissaAt num' den' (scaleOf num' den') * 2 ^ scaleOf num' den' :=
          mul_le_mul_of_nonneg_right hm' (by positivity)
  · rw [heq]
    have := mantissaAt_mono hden hden' h (scaleOf num' den')
    exact mul_le_mul_of_nonneg_right (by exact_mod_cast this) (by positivity)
  · -- not possible: the quotients are the other way round
    have h1 := hs.le (lt_of_le_of_lt hs'.least hgt)
    have h2 := hs'.lt
    have h3 : (2 : ℚ) ^ (scaleOf num' den' + 53) ≤ 2 ^ (scaleOf num den + 52) :=
      zpow_le_zpow_right₀ (by norm_num) (by omega)
    linarith

/-! ## The nearest double -/

def level : Binary64 → Option (WithBot (WithTop ℚ))
  | .infinite negative => some (if negative then ⊥ else ⊤)
  | x => Option.map (fun r : ℚ => WithBot.some (WithTop.some r)) x.toRat?

theorem level_of_toRat? {x : Binary64} {r : ℚ} (h : x.toRat? = some r) :
    x.level = some (WithBot.some (WithTop.some r)) := by
  cases x with
  | finite s m q => simp only [level, h, Option.map_some]
  | infinite s => simp [toRat?] at h
  | notANumber => simp [toRat?] at h

theorem toRat?_finite (negative : Bool) (m : Nat) (q : Int) : (finite negative m q).toRat? =
    some (if negative then -(m * 2 ^ q : ℚ) else m * 2 ^ q) := by
  have hsize : (if 0 ≤ q then ((m * Nat.pow 2 q.toNat : Nat) : ℚ) else mkRat m (Nat.pow 2 (-q).toNat)) =
      m * 2 ^ q := by
    rw [two_zpow_eq]
    split
    · next h =>
      have : (-q).toNat = 0 := by omega
      simp [this]
    · next h =>
      have : q.toNat = 0 := by omega
      rw [this, Rat.mkRat_eq_div]
      simp [div_eq_mul_inv]
  simp only [toRat?, hsize]

theorem natCast_mul_zpow_lt {m : Nat} {q : Int} (hm : m < 2 ^ 53) (hq : q ≤ 971) :
    (m : ℚ) * 2 ^ q < 2 ^ 1024 := by
  have hm' : (m : ℚ) < 2 ^ 53 := by exact_mod_cast hm
  have hpow : (2 : ℚ) ^ q ≤ 2 ^ (971 : Int) := zpow_le_zpow_right₀ (by norm_num) hq
  calc (m : ℚ) * 2 ^ q < 2 ^ 53 * 2 ^ q := mul_lt_mul_of_pos_right hm' (by positivity)
    _ ≤ 2 ^ 53 * 2 ^ (971 : Int) := mul_le_mul_of_nonneg_left hpow (by positivity)
    _ = 2 ^ 1024 := by
      rw [← zpow_natCast, ← zpow_natCast, ← zpow_add₀ (by norm_num)]
      norm_num

theorem ofQuotient_cases (negative : Bool) {num den : Nat} (hnum : 0 < num) (hden : 0 < den) :
    2 ^ 1024 ≤ rounded num den ∧ ofQuotient negative num den = .infinite negative ∨
    rounded num den < 2 ^ 1024 ∧ (ofQuotient negative num den).toRat? =
      some (if negative then -rounded num den else rounded num den) := by
  have hle := mantissa_le hnum hden
  have hge := le_mantissa hnum hden
  have hleast := (scaleOf_scaled hnum hden).least
  have hmantissa : (if 0 ≤ scaleOf num den then roundDiv num (den * Nat.pow 2 (scaleOf num den).toNat)
      else roundDiv (num * Nat.pow 2 (-scaleOf num den).toNat) den) =
      mantissaAt num den (scaleOf num den) := by
    unfold mantissaAt
    split
    · next h =>
      have : (-scaleOf num den).toNat = 0 := by omega
      simp [this]
    · next h =>
      have : (scaleOf num den).toNat = 0 := by omega
      simp [this]
  unfold ofQuotient rounded
  dsimp only
  rw [hmantissa]
  generalize mantissaAt num den (scaleOf num den) = m at *
  generalize scaleOf num den = q at *
  -- a mantissa that is rounded up to one digit more moves to the next scale
  obtain ⟨m', q', hpair, hvalue, hlt, hfull⟩ : ∃ (m' : Nat) (q' : Int),
      (if (m == Nat.pow 2 53) = true then (Nat.pow 2 52, q + 1) else (m, q)) = (m', q') ∧
      (m : ℚ) * 2 ^ q = m' * 2 ^ q' ∧ m' < 2 ^ 53 ∧ (-1074 < q' → 2 ^ 52 ≤ m') := by
    by_cases h : m = 2 ^ 53
    · refine ⟨2 ^ 52, q + 1, by simp [h], ?_, by norm_num, fun _ => le_rfl⟩
      rw [h, zpow_add_one₀ (by norm_num)]
      push_cast
      ring
    · exact ⟨m, q, if_neg (by simpa using h), rfl, by omega, hge⟩
  rw [hpair, hvalue]
  dsimp only
  by_cases hzero : m' = 0
  · right
    simp only [hzero, beq_self_eq_true, if_true, toRat?_finite]
    simp
  · by_cases hbig : 971 < q'
    · left
      refine ⟨?_, by simp [hzero, hbig]⟩
      have hm : (2 : ℚ) ^ 52 ≤ m' := by exact_mod_cast hfull (by omega)
      have hq : (2 : ℚ) ^ (972 : Int) ≤ 2 ^ q' := zpow_le_zpow_right₀ (by norm_num) (by omega)
      calc (2 : ℚ) ^ 1024 = 2 ^ 52 * 2 ^ (972 : Int) := by
            rw [← zpow_natCast, ← zpow_natCast, ← zpow_add₀ (by norm_num)]
            norm_num
        _ ≤ (m' : ℚ) * 2 ^ q' := mul_le_mul hm hq (by positivity) (by positivity)
    · right
      constructor
      · exact natCast_mul_zpow_lt hlt (by omega)
      · simp [hzero, hbig, toRat?_finite]

theorem rounded_nonneg (num den : Nat) : 0 ≤ rounded num den := by
  unfold rounded
  positivity

theorem ofRat_of_pos {r : ℚ} (h : 0 < r) : (ofRat r).level = some
    (if 2 ^ 1024 ≤ rounded r.num.natAbs r.den then ⊤
      else WithBot.some (WithTop.some (rounded r.num.natAbs r.den))) := by
  have hnum : 0 < r.num := Rat.num_pos.mpr h
  have hne : (r.num == 0) = false := by simpa using hnum.ne'
  have hneg : decide (r.num < 0) = false := by simpa using hnum.le
  rw [ofRat, hne, hneg]
  rcases ofQuotient_cases false (Int.natAbs_pos.mpr hnum.ne') r.den_pos with ⟨hbig, heq⟩ | ⟨hlt, heq⟩
  · rw [if_pos hbig]
    simp [heq, level]
  · rw [if_neg (not_le.mpr hlt)]
    exact level_of_toRat? heq

theorem ofRat_of_neg {r : ℚ} (h : r < 0) : (ofRat r).level = some
    (if 2 ^ 1024 ≤ rounded r.num.natAbs r.den then ⊥
      else WithBot.some (WithTop.some (-rounded r.num.natAbs r.den))) := by
  have hnum : r.num < 0 := Rat.num_neg.mpr h
  have hne : (r.num == 0) = false := by simpa using hnum.ne
  have hneg : decide (r.num < 0) = true := by simpa using hnum
  rw [ofRat, hne, hneg]
  rcases ofQuotient_cases true (Int.natAbs_pos.mpr hnum.ne) r.den_pos with ⟨hbig, heq⟩ | ⟨hlt, heq⟩
  · rw [if_pos hbig]
    simp [heq, level]
  · rw [if_neg (not_le.mpr hlt)]
    exact level_of_toRat? heq

theorem ofRat_zero : (ofRat 0).level = some (WithBot.some (WithTop.some 0)) := by
  apply level_of_toRat?
  simp [ofRat, toRat?_finite]

theorem natAbs_num_mul_den_le {r s : ℚ} (hr : 0 < r) (h : r ≤ s) :
    r.num.natAbs * s.den ≤ s.num.natAbs * r.den := by
  have hs : 0 < s := hr.trans_le h
  have h1 := Rat.num_pos.mpr hr
  have h2 := Rat.num_pos.mpr hs
  have h3 := (Rat.le_iff r s).mp h
  zify
  rwa [abs_of_pos h1, abs_of_pos h2]

theorem ofRat_nonneg {r : ℚ} (h : 0 ≤ r) :
    ∃ x, (ofRat r).level = some x ∧ WithBot.some (WithTop.some (0 : ℚ)) ≤ x := by
  rcases h.eq_or_lt with rfl | hpos
  · exact ⟨_, ofRat_zero, le_rfl⟩
  · refine ⟨_, ofRat_of_pos hpos, ?_⟩
    split
    · exact le_top
    · exact WithBot.coe_le_coe.mpr (WithTop.coe_le_coe.mpr (rounded_nonneg _ _))

theorem ofRat_nonpos {r : ℚ} (h : r ≤ 0) :
    ∃ x, (ofRat r).level = some x ∧ x ≤ WithBot.some (WithTop.some (0 : ℚ)) := by
  rcases h.eq_or_lt with rfl | hneg
  · exact ⟨_, ofRat_zero, le_rfl⟩
  · refine ⟨_, ofRat_of_neg hneg, ?_⟩
    split
    · exact bot_le
    · have := rounded_nonneg r.num.natAbs r.den
      exact WithBot.coe_le_coe.mpr (WithTop.coe_le_coe.mpr (by linarith))

/-- The nearest double of a larger number is no smaller. -/
theorem ofRat_mono {r s : ℚ} (h : r ≤ s) :
    ∃ x y, (ofRat r).level = some x ∧ (ofRat s).level = some y ∧ x ≤ y := by
  by_cases hr : 0 < r
  · have hs : 0 < s := hr.trans_le h
    refine ⟨_, _, ofRat_of_pos hr, ofRat_of_pos hs, ?_⟩
    have hle := rounded_mono (Int.natAbs_pos.mpr (Rat.num_pos.mpr hr).ne') r.den_pos
      (Int.natAbs_pos.mpr (Rat.num_pos.mpr hs).ne') s.den_pos (natAbs_num_mul_den_le hr h)
    by_cases hbig : 2 ^ 1024 ≤ rounded s.num.natAbs s.den
    · rw [if_pos hbig]
      exact le_top
    · rw [if_neg hbig, if_neg fun hr => hbig (hr.trans hle)]
      exact WithBot.coe_le_coe.mpr (WithTop.coe_le_coe.mpr hle)
  · by_cases hs : s < 0
    · have hr : r < 0 := h.trans_lt hs
      refine ⟨_, _, ofRat_of_neg hr, ofRat_of_neg hs, ?_⟩
      have hle := rounded_mono (Int.natAbs_pos.mpr (Rat.num_neg.mpr hs).ne) s.den_pos
        (Int.natAbs_pos.mpr (Rat.num_neg.mpr hr).ne) r.den_pos (by
          have := natAbs_num_mul_den_le (neg_pos.mpr hs) (neg_le_neg h)
          simpa using this)
      by_cases hbig : 2 ^ 1024 ≤ rounded r.num.natAbs r.den
      · rw [if_pos hbig]
        exact bot_le
      · rw [if_neg hbig, if_neg fun hs => hbig (hs.trans hle)]
        exact WithBot.coe_le_coe.mpr (WithTop.coe_le_coe.mpr (neg_le_neg hle))
    · obtain ⟨x, hx, hx0⟩ := ofRat_nonpos (not_lt.mp hr)
      obtain ⟨y, hy, hy0⟩ := ofRat_nonneg (not_lt.mp hs)
      exact ⟨x, y, hx, hy, hx0.trans hy0⟩

/-! ## Differences -/

theorem level_cases {x : Binary64} {l : WithBot (WithTop ℚ)} (h : x.level = some l) :
    x = infinite true ∧ l = ⊥ ∨ x = infinite false ∧ l = ⊤ ∨
      ∃ r, x.toRat? = some r ∧ l = WithBot.some (WithTop.some r) := by
  cases x with
  | finite s m q =>
    refine .inr (.inr ⟨_, toRat?_finite s m q, ?_⟩)
    rw [level_of_toRat? (toRat?_finite s m q)] at h
    exact (Option.some.inj h).symm
  | infinite s => cases s <;> simp_all [level]
  | notANumber => simp [level, toRat?] at h

theorem toRat?_neg {x : Binary64} {r : ℚ} (h : x.toRat? = some r) : x.neg.toRat? = some (-r) := by
  cases x with
  | finite s m q =>
    rw [toRat?_finite] at h
    rw [neg, toRat?_finite, ← Option.some.inj h]
    cases s <;> simp
  | infinite s => simp [toRat?] at h
  | notANumber => simp [toRat?] at h

theorem level_sub {x y : Binary64} {r s : ℚ} (hx : x.toRat? = some r) (hy : y.toRat? = some s) :
    (x.sub y).level = (ofRat (r - s)).level := by
  have hneg := toRat?_neg hy
  cases x with
  | finite t m p =>
    cases y with
    | finite u n q =>
      rw [neg] at hneg
      simp only [sub, neg, add, hx, hneg]
      by_cases h : r + -s = 0
      · rw [if_pos h, sub_eq_add_neg, h, ofRat_zero]
        exact level_of_toRat? (by simp [toRat?_finite])
      · rw [if_neg h, sub_eq_add_neg]
    | infinite u => simp [toRat?] at hy
    | notANumber => simp [toRat?] at hy
  | infinite t => simp [toRat?] at hx
  | notANumber => simp [toRat?] at hx

theorem infinite_sub {y : Binary64} {s : ℚ} (t : Bool) (hy : y.toRat? = some s) :
    (infinite t).sub y = infinite t := by
  cases y with
  | finite u n q => rfl
  | infinite u => simp [toRat?] at hy
  | notANumber => simp [toRat?] at hy

theorem sub_infinite {x : Binary64} {r : ℚ} (hx : x.toRat? = some r) (t : Bool) :
    x.sub (infinite t) = infinite (!t) := by
  cases x with
  | finite u n q => rfl
  | infinite u => simp [toRat?] at hx
  | notANumber => simp [toRat?] at hx

theorem level_sub_lowest {x : Binary64} {l : WithBot (WithTop ℚ)} (hx : x.level = some l) (hl : l ≠ ⊥) :
    (x.sub (infinite true)).level = some ⊤ := by
  rcases level_cases hx with ⟨-, h⟩ | ⟨rfl, -⟩ | ⟨r, hr, -⟩
  · exact absurd h hl
  · rfl
  · rw [sub_infinite hr]
    rfl

/-- The difference of the outer two of four numbers is no smaller than that of the inner two. -/
theorem sub_mono {a b x y : Binary64} {k l m n u : WithBot (WithTop ℚ)} (ha : a.level = some k)
    (hb : b.level = some l) (hx : x.level = some m) (hy : y.level = some n) (hab : k ≤ l) (hbx : l ≤ m)
    (hxy : m ≤ n) (hu : (x.sub b).level = some u) : ∃ v, (y.sub a).level = some v ∧ u ≤ v := by
  have hlowest (h : m ≠ ⊥) : n ≠ ⊥ := fun hn => h (le_bot_iff.mp (hn ▸ hxy))
  rcases level_cases hb with ⟨rfl, rfl⟩ | ⟨rfl, rfl⟩ | ⟨s, hs, rfl⟩
  · -- the lower two are the same, and the upper two are above them
    obtain rfl := le_bot_iff.mp hab
    have hm : m ≠ ⊥ := by
      rintro rfl
      rcases level_cases hx with ⟨rfl, -⟩ | ⟨-, h⟩ | ⟨r, -, h⟩
      · simp [sub, neg, add, level, toRat?] at hu
      · exact bot_ne_top h
      · exact WithBot.coe_ne_bot h.symm
    rcases level_cases ha with ⟨rfl, -⟩ | ⟨-, h⟩ | ⟨r, -, h⟩
    · exact ⟨⊤, level_sub_lowest hy (hlowest hm), le_top⟩
    · exact absurd h bot_ne_top
    · exact absurd h.symm WithBot.coe_ne_bot
  · -- the inner two are the same, and their difference is no number
    obtain rfl := top_le_iff.mp hbx
    rcases level_cases hx with ⟨-, h⟩ | ⟨rfl, -⟩ | ⟨r, -, h⟩
    · exact absurd h.symm bot_ne_top
    · simp [sub, neg, add, level, toRat?] at hu
    · exact absurd h (by simp)
  · have hm : m ≠ ⊥ := fun h => by simp [h] at hbx
    rcases level_cases ha with ⟨rfl, -⟩ | ⟨-, rfl⟩ | ⟨t, ht, rfl⟩
    · exact ⟨⊤, level_sub_lowest hy (hlowest hm), le_top⟩
    · simp at hab
    · rcases level_cases hy with ⟨-, rfl⟩ | ⟨rfl, -⟩ | ⟨r', hr', rfl⟩
      · exact absurd rfl (hlowest hm)
      · exact ⟨⊤, by rw [infinite_sub false ht]; rfl, le_top⟩
      · rcases level_cases hx with ⟨-, rfl⟩ | ⟨-, rfl⟩ | ⟨r, hr, rfl⟩
        · exact absurd rfl hm
        · simp at hxy
        · have hts : t ≤ s := by simpa using hab
          have hrr' : r ≤ r' := by simpa using hxy
          obtain ⟨y, z, hy, hz, hyz⟩ := ofRat_mono (sub_le_sub hrr' hts)
          rw [level_sub hr hs, hy] at hu
          rw [level_sub hr' ht]
          exact ⟨z, hz, Option.some.inj hu ▸ hyz⟩

/-! ## Numbers that are not rounded -/

/-- A multiple of a power of two is one of each smaller power. -/
theorem natCast_mul_zpow (k : Nat) {q s : Int} (h : s ≤ q) :
    (k : ℚ) * 2 ^ q = ((k * 2 ^ (q - s).toNat : Nat) : ℚ) * 2 ^ s := by
  have hexp : ((q - s).toNat : Int) = q - s := by omega
  rw [Nat.cast_mul, Nat.cast_pow, Nat.cast_ofNat, ← zpow_natCast, hexp, mul_assoc,
    ← zpow_add₀ (by norm_num), sub_add_cancel]

/-- At most 53 binary digits, none of them below the least double. -/
theorem rounded_eq_self {num den m : Nat} {q : Int} (hnum : 0 < num) (hden : 0 < den)
    (h : (num : ℚ) / den = m * 2 ^ q) (hm : m < 2 ^ 53) (hq : -1074 ≤ q) :
    rounded num den = m * 2 ^ q := by
  have hscale : scaleOf num den ≤ q := by
    by_contra hlt
    have hle := (scaleOf_scaled hnum hden).le (by omega)
    have hpow : (2 : ℚ) ^ (q + 53) ≤ 2 ^ (scaleOf num den + 52) :=
      zpow_le_zpow_right₀ (by norm_num) (by omega)
    have hless : (m : ℚ) * 2 ^ q < 2 ^ (q + 53) := by
      rw [zpow_add₀ (by norm_num), mul_comm]
      exact mul_lt_mul_of_pos_left (by exact_mod_cast hm) (by positivity)
    linarith
  rw [natCast_mul_zpow m hscale] at h ⊢
  have hmantissa := le_antisymm (mantissaAt_le hden h.le) (le_mantissaAt hden h.ge)
  rw [rounded, hmantissa]

theorem rounded_natCast {n : Nat} (hn : 0 < n) (h : n < 2 ^ 53) : rounded n 1 = n := by
  have hself := rounded_eq_self hn Nat.one_pos (q := 0) (by simp) h (by norm_num)
  rwa [zpow_zero, mul_one] at hself

theorem ofRat_intCast {n : Int} (h : n.natAbs < 2 ^ 53) : (ofRat n).toRat? = some (n : ℚ) := by
  by_cases hzero : n = 0
  · subst hzero
    simp [ofRat, toRat?_finite]
  · have hpos : 0 < n.natAbs := Int.natAbs_pos.mpr hzero
    have hround := rounded_natCast hpos h
    have hne : ((n : ℚ).num == 0) = false := by simpa using hzero
    rw [ofRat, hne, Rat.num_intCast, Rat.den_intCast]
    rcases ofQuotient_cases (decide (n < 0)) hpos Nat.one_pos with ⟨hbig, -⟩ | ⟨-, heq⟩
    · have hlt : (n.natAbs : ℚ) < 2 ^ 53 := by exact_mod_cast h
      rw [hround] at hbig
      have hpow : (2 : ℚ) ^ 53 ≤ 2 ^ 1024 := pow_le_pow_right₀ (by norm_num) (by norm_num)
      exact absurd (hpow.trans hbig) (not_le.mpr hlt)
    · simp only [Bool.false_eq_true, if_false]
      rw [heq, hround, Nat.cast_natAbs]
      by_cases hneg : n < 0
      · simp [hneg, abs_of_neg]
      · simp [hneg, abs_of_nonneg (not_lt.mp hneg)]

end CodeAtlas.Binary64
