import CodeAtlas.Proofs.Clock
import CodeAtlas.Proofs.WrittenDoubles

/-!
# Differences that are not rounded

A double holds every number of 53 binary digits exactly. The difference of two of them that are at
most twice as large as one another has no more digits (`Holds.sub`), and so the time that a clock
measures between two readings, if it is not below an interval and neither is the earlier reading,
is not below it in truth (`le_sub_of_not_isBefore`).
-/

namespace CodeAtlas

namespace Binary64

def Holds (r : ℚ) : Prop :=
  ∃ (m : Nat) (q : Int), m < 2 ^ 53 ∧ -1074 ≤ q ∧ q ≤ 971 ∧ r = m * 2 ^ q

theorem level_ofRat_of_holds {r : ℚ} (h : Holds r) :
    (ofRat r).level = some (WithBot.some (WithTop.some r)) := by
  obtain ⟨m, q, hm, hq, hq', hr⟩ := h
  by_cases hzero : r = 0
  · subst hzero
    exact ofRat_zero
  · have hpos : 0 < r := lt_of_le_of_ne (by rw [hr]; positivity) (Ne.symm hzero)
    have hnum : 0 < r.num := Rat.num_pos.mpr hpos
    have hquotient : (r.num.natAbs : ℚ) / r.den = m * 2 ^ q := by
      rw [Nat.cast_natAbs, abs_of_pos hnum, Rat.num_div_den, hr]
    have hround := rounded_eq_self (Int.natAbs_pos.mpr hnum.ne') r.den_pos hquotient hm hq
    rw [ofRat_of_pos hpos, hround, if_neg (not_le.mpr (natCast_mul_zpow_lt hm hq')), ← hr]

theorem Holds.sub {r s : ℚ} (hr : Holds r) (hs : Holds s) (hle : s ≤ r) (htwice : r ≤ 2 * s) :
    Holds (r - s) := by
  obtain ⟨m, q, hm, hq, hq', rfl⟩ := hr
  obtain ⟨n, p, hn, hp, hp', rfl⟩ := hs
  -- at the smaller of the two scales both are whole
  have hpos : (0 : ℚ) < 2 ^ min q p := by positivity
  have hm' := natCast_mul_zpow m (min_le_left q p)
  have hn' := natCast_mul_zpow n (min_le_right q p)
  generalize hM : m * 2 ^ (q - min q p).toNat = M at hm'
  generalize hN : n * 2 ^ (p - min q p).toNat = N at hn'
  rw [hm', hn'] at hle htwice
  have hNM : N ≤ M := by exact_mod_cast le_of_mul_le_mul_right hle hpos
  have hMN : M ≤ 2 * N := by
    rw [← mul_assoc] at htwice
    exact_mod_cast le_of_mul_le_mul_right htwice hpos
  refine ⟨M - N, min q p, ?_, le_min hq hp, (min_le_left q p).trans hq', ?_⟩
  · rcases min_choice q p with hmin | hmin
    · rw [hmin, sub_self, Int.toNat_zero, pow_zero, mul_one] at hM
      omega
    · rw [hmin, sub_self, Int.toNat_zero, pow_zero, mul_one] at hN
      omega
  · rw [hm', hn', Nat.cast_sub hNM]
    ring

theorem IsCanonical.holds {x : Binary64} (h : x.IsCanonical) {r : ℚ} (hr : x.toRat? = some r)
    (hnonneg : 0 ≤ r) : Holds r := by
  cases x with
  | infinite s => cases hr
  | notANumber => cases hr
  | finite s m q =>
    rw [toRat?_finite, Option.some_inj] at hr
    have hzero : Holds 0 := ⟨0, 0, by norm_num, by norm_num, by norm_num, by norm_num⟩
    rcases h with ⟨rfl, rfl⟩ | ⟨hm, hlt, hq, hq', -⟩
    · have : r = 0 := by rw [← hr]; simp
      rwa [this]
    · cases s with
      | false => exact ⟨m, q, hlt, hq, hq', hr.symm⟩
      | true =>
        have hpos : (0 : ℚ) < m * 2 ^ q := by positivity
        rw [if_pos rfl] at hr
        linarith

end Binary64

namespace Seconds

open Binary64

def IsReading : Seconds → Prop
  | whole _ => True
  | real x => x.IsCanonical ∧ ∃ r, x.toRat? = some r

theorem IsReading.toRat? {a : Seconds} (h : a.IsReading) : ∃ x, a.toRat? = some x := by
  cases a with
  | whole n => exact ⟨n, rfl⟩
  | real x => exact h.2

theorem le_of_reaches {a b : Seconds} {x y : ℚ} (hx : a.toRat? = some x) (hy : b.toRat? = some y)
    (h : b.reaches a = true) : x ≤ y := by
  simpa [reaches, hx, hy] using h

theorem toRat?_toBinary64 {a : Seconds} (h : a.IsExact) : a.toBinary64.toRat? = a.toRat? := by
  cases a with
  | whole n => exact ofRat_intCast (lt_trans h (by norm_num))
  | real x => rfl

theorem IsReading.holds {a : Seconds} (h : a.IsReading) (hexact : a.IsExact) {x : ℚ}
    (hx : a.toRat? = some x) (hnonneg : 0 ≤ x) : Holds x := by
  cases a with
  | real y => exact h.1.holds hx hnonneg
  | whole n =>
    obtain rfl : (n : ℚ) = x := Option.some.inj hx
    have hn : 0 ≤ n := by exact_mod_cast hnonneg
    have hlt : n.natAbs < 2 ^ 52 := hexact
    refine ⟨n.natAbs, 0, by omega, by norm_num, by norm_num, ?_⟩
    rw [zpow_zero, mul_one, Nat.cast_natAbs, abs_of_nonneg hn]

theorem level_since_of_toRat? {a b : Seconds} (ha : a.IsExact) (hb : b.IsExact) {x y : ℚ}
    (hx : a.toRat? = some x) (hy : b.toRat? = some y) : (b.since a).level = (ofRat (y - x)).level := by
  rw [level_since hb ha]
  exact level_sub ((toRat?_toBinary64 hb).trans hy) ((toRat?_toBinary64 ha).trans hx)

theorem le_of_not_isBefore {span interval : Seconds} {v i : ℚ}
    (hv : span.level = some (WithBot.some (WithTop.some v))) (hi : interval.toRat? = some i)
    (h : span.isBefore interval = false) : i ≤ v := by
  by_contra hlt
  rw [← Bool.not_eq_true, isBefore_iff] at h
  refine h ⟨_, _, hv, level_of_toRat? hi, ?_⟩
  exact WithBot.coe_lt_coe.mpr (WithTop.coe_lt_coe.mpr (not_le.mp hlt))

/-- A span that is not before a positive interval is a positive one. -/
theorem lt_of_not_isBefore {a b interval : Seconds} (ha : a.IsExact) (hb : b.IsExact) {x y i : ℚ}
    (hx : a.toRat? = some x) (hy : b.toRat? = some y) (hi : interval.toRat? = some i) (hpos : 0 < i)
    (h : (b.since a).isBefore interval = false) : x < y := by
  by_contra hle
  obtain ⟨l, hl, hnonpos⟩ := ofRat_nonpos (sub_nonpos.mpr (not_lt.mp hle))
  rw [← Bool.not_eq_true, isBefore_iff, level_since_of_toRat? ha hb hx hy] at h
  refine h ⟨_, _, hl, level_of_toRat? hi, hnonpos.trans_lt ?_⟩
  exact WithBot.coe_lt_coe.mpr (WithTop.coe_lt_coe.mpr hpos)

theorem le_sub_of_not_isBefore {a b interval : Seconds} (ha : a.IsExact) (hb : b.IsExact)
    (hreadA : a.IsReading) (hreadB : b.IsReading) {x y i : ℚ} (hx : a.toRat? = some x)
    (hy : b.toRat? = some y) (hi : interval.toRat? = some i) (hix : 0 < i → i ≤ x) (hxy : x ≤ y)
    (h : (b.since a).isBefore interval = false) : i ≤ y - x := by
  rcases le_or_gt i 0 with hneg | hpos
  · linarith
  · have hix' := hix hpos
    rcases le_or_gt y (2 * x) with hnear | hfar
    · have hholds := (hreadB.holds hb hy (by linarith)).sub (hreadA.holds ha hx (by linarith)) hxy hnear
      refine le_of_not_isBefore ?_ hi h
      rw [level_since_of_toRat? ha hb hx hy, level_ofRat_of_holds hholds]
    · linarith

end Seconds

end CodeAtlas
