import CodeAtlas.Number.Binary64
import CodeAtlas.Proofs.Delimited
import Mathlib.Algebra.Order.Field.Power
import Mathlib.Data.Rat.Floor
import Mathlib.Tactic.FieldSimp
import Mathlib.Tactic.FinCases
import Mathlib.Tactic.Linarith
import Mathlib.Tactic.NormNum
import Mathlib.Tactic.Positivity
import Mathlib.Tactic.Ring

/-!
# Written doubles

The digits that are written stand for one of the numbers that round to the double, and no number
rounds to two doubles. So the text tells the double.
-/

namespace CodeAtlas.Binary64

/-! ## Numbers that round to a double -/

/-- The mantissa has 53 binary digits, unless the exponent is the least one. -/
def IsCanonical : Binary64 → Prop
  | .finite _ m q =>
    m = 0 ∧ q = 0 ∨ 0 < m ∧ m < 2 ^ 53 ∧ -1074 ≤ q ∧ q ≤ 971 ∧ (m < 2 ^ 52 → q = -1074)
  | _ => True

/-- Four times the way to the number halfway to the double below, in units of the last place. -/
def below (m : Nat) (q : Int) : Nat :=
  if m == Nat.pow 2 52 && -1074 < q then 1 else 2

structure Covers (m : Nat) (q : Int) (x : ℚ) : Prop where
  low : (4 * m - below m q : ℚ) * 2 ^ (q - 2) ≤ x
  high : x ≤ (4 * m + 2 : ℚ) * 2 ^ (q - 2)
  apart : m % 2 = 1 → (4 * m - below m q : ℚ) * 2 ^ (q - 2) < x ∧ x < (4 * m + 2 : ℚ) * 2 ^ (q - 2)

theorem below_eq_one_or_two (m : Nat) (q : Int) : below m q = 1 ∨ below m q = 2 := by
  unfold below
  split <;> simp

theorem Covers.mantissa_le {m n : Nat} {q : Int} {x : ℚ} (hn : n < 2 ^ 52 → q = -1074)
    (hm : Covers m q x) (hc : Covers n q x) : m ≤ n := by
  by_contra h
  have hpos : (0 : ℚ) < 2 ^ (q - 2) := by positivity
  have hbelow : below m q = 2 := by
    unfold below
    rw [if_neg]
    simp only [Bool.and_eq_true, beq_iff_eq, decide_eq_true_eq, not_and, Nat.pow_eq]
    intro hm
    have := hn (by omega)
    omega
  have hle : (4 * m - 2 : ℚ) ≤ 4 * n + 2 := by
    have := hm.low.trans hc.high
    rw [hbelow] at this
    exact le_of_mul_le_mul_right this hpos
  have hle : 4 * m ≤ 4 * n + 4 := by
    have : (4 * m : ℚ) ≤ 4 * n + 4 := by linarith
    exact_mod_cast this
  -- Neighbours have mantissas of different parity, so one of them leaves out the middle.
  have hnext : m = n + 1 := by omega
  have hsame : (4 * m - below m q : ℚ) * 2 ^ (q - 2) = (4 * n + 2 : ℚ) * 2 ^ (q - 2) := by
    rw [hbelow, hnext]
    push_cast
    ring
  rcases Nat.mod_two_eq_zero_or_one n with hn | hn
  · have hodd := hm.apart (by omega)
    exact absurd (hodd.1.trans_le hc.high) (by rw [hsame]; exact lt_irrefl _)
  · have hodd := hc.apart hn
    exact absurd (hm.low.trans_lt hodd.2) (by rw [hsame]; exact lt_irrefl _)

theorem Covers.exponent_le {m n : Nat} {q p : Int} {x : ℚ} (hm : m < 2 ^ 53) (hq : -1074 ≤ q)
    (hn : n < 2 ^ 52 → p = -1074) (hc : Covers m q x) (hd : Covers n p x) : p ≤ q := by
  by_contra h
  have hpos : (0 : ℚ) < 2 ^ (q - 2) := by positivity
  have hlarge : 2 ^ 52 ≤ n := by
    by_contra hlt
    have := hn (by omega)
    omega
  have hstep : (2 : ℚ) * 2 ^ (q - 2) ≤ 2 ^ (p - 2) := by
    rw [← zpow_one_add₀ (two_ne_zero)]
    exact zpow_le_zpow_right₀ one_le_two (by omega)
  have hfactor : (0 : ℚ) ≤ 4 * n - below n p := by
    have : (2 : ℚ) ^ 52 ≤ n := by exact_mod_cast hlarge
    rcases below_eq_one_or_two n p with hb | hb <;> rw [hb] <;> push_cast <;> linarith
  have hlow : (2 * (4 * n - below n p) : ℚ) * 2 ^ (q - 2) ≤ x := by
    calc (2 * (4 * n - below n p) : ℚ) * 2 ^ (q - 2)
        = (4 * n - below n p) * (2 * 2 ^ (q - 2)) := by ring
      _ ≤ (4 * n - below n p) * 2 ^ (p - 2) := mul_le_mul_of_nonneg_left hstep hfactor
      _ ≤ x := hd.low
  have hle : (2 * (4 * n - below n p) : ℚ) ≤ 4 * m + 2 :=
    le_of_mul_le_mul_right (hlow.trans hc.high) hpos
  have hle : 8 * n ≤ 4 * m + 2 + 2 * below n p := by
    have : (8 * n : ℚ) ≤ 4 * m + 2 + 2 * below n p := by linarith
    exact_mod_cast this
  -- Only the least mantissa comes close enough, and there the one below it is odd.
  have hone : below n p = 1 := by
    rcases below_eq_one_or_two n p with hb | hb
    · exact hb
    · have hn : n = 2 ^ 52 := by omega
      simp [below, hn] at hb
      omega
  have hodd : m = 2 ^ 53 - 1 := by omega
  have hlt : (2 * (4 * n - below n p) : ℚ) < 4 * m + 2 :=
    lt_of_mul_lt_mul_right (hlow.trans_lt (hc.apart (by omega)).2) hpos.le
  have hlt : 8 * n < 4 * m + 2 + 2 * below n p := by
    have : (8 * n : ℚ) < 4 * m + 2 + 2 * below n p := by linarith
    exact_mod_cast this
  omega

theorem Covers.unique {m n : Nat} {q p : Int} {x : ℚ} {a b : Bool} (ha : IsCanonical (.finite a m q))
    (hb : IsCanonical (.finite b n p)) (hm : m ≠ 0) (hn : n ≠ 0) (hc : Covers m q x)
    (hd : Covers n p x) : m = n ∧ q = p := by
  obtain ⟨-, hm, hq, -, hmq⟩ := ha.resolve_left fun h => hm h.1
  obtain ⟨-, hn, hp, -, hnp⟩ := hb.resolve_left fun h => hn h.1
  have hqp : q = p := le_antisymm (hd.exponent_le hn hp hmq hc) (hc.exponent_le hm hq hnp hd)
  subst hqp
  exact ⟨le_antisymm (hc.mantissa_le hnp hd) (hd.mantissa_le hmq hc), rfl⟩

/-! ## The grid of a decimal place -/

def ups (q : Int) : Nat := if 0 ≤ q then Nat.pow 2 q.toNat else 1

def dens (q : Int) : Nat := if 0 ≤ q then 4 else 4 * Nat.pow 2 (-q).toNat

def scaleAt (k : Int) : Nat := if 0 ≤ k then 1 else Nat.pow 10 (-k).toNat

def unitAt (q k : Int) : Nat := if 0 ≤ k then dens q * Nat.pow 10 k.toNat else dens q

theorem ups_eq (q : Int) : (ups q : ℚ) = dens q * 2 ^ (q - 2) := by
  unfold ups dens
  by_cases hq : 0 ≤ q
  · obtain ⟨n, rfl⟩ := Int.eq_ofNat_of_zero_le hq
    rw [if_pos hq, if_pos hq, zpow_sub₀ two_ne_zero]
    norm_num
    ring
  · obtain ⟨n, rfl⟩ : ∃ n : Nat, q = -n := ⟨(-q).toNat, by omega⟩
    rw [if_neg hq, if_neg hq, zpow_sub₀ two_ne_zero]
    norm_num
    field_simp

theorem unitAt_eq (q k : Int) : (unitAt q k : ℚ) = dens q * scaleAt k * 10 ^ k := by
  unfold unitAt scaleAt
  by_cases hk : 0 ≤ k
  · obtain ⟨n, rfl⟩ := Int.eq_ofNat_of_zero_le hk
    rw [if_pos hk, if_pos hk]
    norm_num
  · obtain ⟨n, rfl⟩ : ∃ n : Nat, k = -n := ⟨(-k).toNat, by omega⟩
    rw [if_neg hk, if_neg hk]
    norm_num

theorem dens_mul_scaleAt_pos (q k : Int) : (0 : ℚ) < dens q * scaleAt k := by
  unfold dens scaleAt
  split <;> split <;> simp

/-- Both sides of a comparison on the grid, over their common denominator. -/
theorem grid_sides (n d : Nat) (q k : Int) :
    ((n * ups q * scaleAt k : Nat) : ℚ) = dens q * scaleAt k * (n * 2 ^ (q - 2))
      ∧ ((d * unitAt q k : Nat) : ℚ) = dens q * scaleAt k * (d * 10 ^ k) := by
  constructor
  · push_cast
    rw [ups_eq]
    ring
  · push_cast
    rw [unitAt_eq]
    ring

theorem grid_le_iff (n d : Nat) (q k : Int) :
    n * ups q * scaleAt k ≤ d * unitAt q k ↔ (n : ℚ) * 2 ^ (q - 2) ≤ d * 10 ^ k := by
  rw [← Nat.cast_le (α := ℚ), (grid_sides n d q k).1, (grid_sides n d q k).2,
    mul_le_mul_iff_right₀ (dens_mul_scaleAt_pos q k)]

theorem le_grid_iff (n d : Nat) (q k : Int) :
    d * unitAt q k ≤ n * ups q * scaleAt k ↔ (d : ℚ) * 10 ^ k ≤ n * 2 ^ (q - 2) := by
  rw [← Nat.cast_le (α := ℚ), (grid_sides n d q k).1, (grid_sides n d q k).2,
    mul_le_mul_iff_right₀ (dens_mul_scaleAt_pos q k)]

def inside (m : Nat) (q k : Int) (d : Nat) : Bool :=
  let lo := (4 * m - below m q) * ups q * scaleAt k
  let hi := (4 * m + 2) * ups q * scaleAt k
  if m % 2 == 0 then lo ≤ d * unitAt q k && d * unitAt q k ≤ hi
  else lo < d * unitAt q k && d * unitAt q k < hi

theorem covers_of_inside {m d : Nat} {q k : Int} (hm : m ≠ 0) (h : inside m q k d = true) :
    Covers m q (d * 10 ^ k) := by
  have hcast : ((4 * m - below m q : Nat) : ℚ) = 4 * m - below m q := by
    rw [Nat.cast_sub (by rcases below_eq_one_or_two m q with hb | hb <;> omega)]
    push_cast
    rfl
  have hcast' : ((4 * m + 2 : Nat) : ℚ) = 4 * m + 2 := by push_cast; rfl
  unfold inside at h
  by_cases heven : m % 2 = 0
  · simp only [heven, beq_self_eq_true, if_true, Bool.and_eq_true, decide_eq_true_eq,
      grid_le_iff, le_grid_iff, hcast, hcast'] at h
    exact ⟨h.1, h.2, fun hodd => by omega⟩
  · simp only [beq_iff_eq, heven, if_false, Bool.and_eq_true, decide_eq_true_eq, ← Nat.not_le,
      grid_le_iff, le_grid_iff, hcast, hcast', not_le] at h
    exact ⟨h.1.le, h.2.le, fun _ => h⟩

theorem onGrid_eq (m : Nat) (q k : Int) :
    onGrid m q k =
      let v := 4 * m * ups q * scaleAt k
      let down := v / unitAt q k
      match inside m q k down && down != 0, inside m q k (down + 1) with
      | true, true =>
        if v - down * unitAt q k < (down + 1) * unitAt q k - v then some down
        else if (down + 1) * unitAt q k - v < v - down * unitAt q k then some (down + 1)
        else if down % 2 == 0 then some down else some (down + 1)
      | true, false => some down
      | false, true => some (down + 1)
      | false, false => none :=
  rfl

theorem onGrid_covers {m d : Nat} {q k : Int} (hm : m ≠ 0) (h : onGrid m q k = some d) :
    d ≠ 0 ∧ Covers m q (d * 10 ^ k) := by
  have hinside : d ≠ 0 ∧ inside m q k d = true := by
    rw [onGrid_eq] at h
    simp only at h
    generalize 4 * m * ups q * scaleAt k / unitAt q k = down at h
    generalize hup : inside m q k (down + 1) = up at h
    cases hdown : (inside m q k down && down != 0) <;> cases up <;> simp only [hdown] at h
    all_goals grind
  exact ⟨hinside.1, covers_of_inside hm hinside.2⟩

theorem onGrid_isSome {m : Nat} {q k : Int} (h : (10 : ℚ) ^ k < 2 ^ (q - 1)) :
    (onGrid m q k).isSome = true := by
  have hunit : unitAt q k < 2 * ups q * scaleAt k := by
    have := (not_congr (grid_le_iff 2 1 q k)).2 (by
      rw [not_le]
      calc ((1 : Nat) : ℚ) * 10 ^ k = 10 ^ k := by push_cast; ring
        _ < 2 ^ (q - 1) := h
        _ = ((2 : Nat) : ℚ) * 2 ^ (q - 2) := by
          push_cast
          rw [← zpow_one_add₀ two_ne_zero]
          congr 1
          ring)
    omega
  have hpos : 0 < unitAt q k := by
    unfold unitAt dens
    split <;> split <;> simp
  have hinside : inside m q k (4 * m * ups q * scaleAt k / unitAt q k + 1) = true := by
    have hlt := Nat.lt_mul_div_succ (4 * m * ups q * scaleAt k) hpos
    have hle := Nat.mul_div_le (4 * m * ups q * scaleAt k) (unitAt q k)
    have hlow : (4 * m - below m q) * ups q * scaleAt k ≤ 4 * m * ups q * scaleAt k :=
      Nat.mul_le_mul_right _ (Nat.mul_le_mul_right _ (Nat.sub_le _ _))
    have hhigh : (4 * m + 2) * ups q * scaleAt k
        = 4 * m * ups q * scaleAt k + 2 * ups q * scaleAt k := by ring
    have hcomm : (4 * m * ups q * scaleAt k / unitAt q k + 1) * unitAt q k
        = unitAt q k * (4 * m * ups q * scaleAt k / unitAt q k) + unitAt q k := by ring
    unfold inside
    simp only [hcomm, hhigh]
    rw [Nat.mul_add, Nat.mul_one] at hlt
    split <;> simp only [Bool.and_eq_true, decide_eq_true_eq] <;> omega
  rw [onGrid_eq]
  simp only [hinside]
  split <;> simp_all
  split
  · simp
  · split
    · simp
    · split <;> simp

/-! ## The search for digits -/

theorem searchDigits_covers {m : Nat} {q lead : Int} (hm : m ≠ 0) {fuel count c : Nat}
    (hc : count ≤ c) (hfuel : c < count + fuel)
    (h : (onGrid m q (lead + 1 - c)).isSome = true) :
    (searchDigits m q lead fuel count).1 ≠ 0
      ∧ Covers m q ((searchDigits m q lead fuel count).1
        * 10 ^ (searchDigits m q lead fuel count).2) := by
  induction fuel generalizing count with
  | zero => omega
  | succ fuel ih =>
    unfold searchDigits
    cases hgrid : onGrid m q (lead + 1 - count) with
    | some d => simpa only [hgrid] using onGrid_covers hm hgrid
    | none =>
      have hne : count ≠ c := by
        intro heq
        rw [heq] at hgrid
        simp [hgrid] at h
      simp only [hgrid]
      exact ih (by omega) (by omega)

theorem ten_pow_le_two_pow : ∀ n < 1100, 10 ^ (n * 30103 / 100000) ≤ 2 ^ n * 10 := by
  have hall : (List.range 1100).all
      fun n => Nat.ble (10 ^ (n * 30103 / 100000)) (2 ^ n * 10) := by
    decide +kernel
  intro n hn
  exact Nat.le_of_ble_eq_true (List.all_eq_true.1 hall n (List.mem_range.2 hn))

theorem two_pow_le_ten_pow :
    ∀ n < 1100, 2 ^ n ≤ 10 * 10 ^ ((n * 30103 + 99999) / 100000) := by
  have hall : (List.range 1100).all
      fun n => Nat.ble (2 ^ n) (10 * 10 ^ ((n * 30103 + 99999) / 100000)) := by
    decide +kernel
  intro n hn
  exact Nat.le_of_ble_eq_true (List.all_eq_true.1 hall n (List.mem_range.2 hn))

/-- The estimate of the decimal exponent is at most one too high. -/
theorem ten_zpow_estimate_le {bits : Int} (hlow : -1100 < bits) (hhigh : bits < 1100) :
    (10 : ℚ) ^ (bits * 30103 / 100000 - 1) ≤ 2 ^ bits := by
  rw [zpow_sub₀ (by norm_num), zpow_one, div_le_iff₀ (by norm_num)]
  by_cases hb : 0 ≤ bits
  · obtain ⟨n, rfl⟩ := Int.eq_ofNat_of_zero_le hb
    have hexp : (n : Int) * 30103 / 100000 = ((n * 30103 / 100000 : Nat) : Int) := by omega
    rw [hexp, zpow_natCast, zpow_natCast]
    exact_mod_cast ten_pow_le_two_pow n (by omega)
  · obtain ⟨n, rfl⟩ : ∃ n : Nat, bits = -n := ⟨(-bits).toNat, by omega⟩
    have hexp : -(n : Int) * 30103 / 100000 = -(((n * 30103 + 99999) / 100000 : Nat) : Int) := by
      omega
    rw [hexp, zpow_neg, zpow_neg, zpow_natCast, zpow_natCast, inv_mul_eq_div,
      inv_le_comm₀ (by positivity) (by positivity), inv_div, div_le_iff₀ (by norm_num), mul_comm]
    exact_mod_cast two_pow_le_ten_pow n (by omega)

def numOf (m : Nat) (q : Int) : Nat := if 0 ≤ q then m * Nat.pow 2 q.toNat else m

def denOf (q : Int) : Nat := if 0 ≤ q then 1 else Nat.pow 2 (-q).toNat

def atLeast (m : Nat) (q e : Int) : Bool :=
  if 0 ≤ e then denOf q * Nat.pow 10 e.toNat ≤ numOf m q
  else denOf q ≤ numOf m q * Nat.pow 10 (-e).toNat

theorem numOf_eq (m : Nat) (q : Int) : (numOf m q : ℚ) = denOf q * (m * 2 ^ q) := by
  unfold numOf denOf
  by_cases hq : 0 ≤ q
  · obtain ⟨n, rfl⟩ := Int.eq_ofNat_of_zero_le hq
    rw [if_pos hq, if_pos hq]
    norm_num
  · obtain ⟨n, rfl⟩ : ∃ n : Nat, q = -n := ⟨(-q).toNat, by omega⟩
    rw [if_neg hq, if_neg hq]
    norm_num
    field_simp

theorem ten_zpow_le_of_atLeast {m : Nat} {q e : Int} (h : atLeast m q e = true) :
    (10 : ℚ) ^ e ≤ m * 2 ^ q := by
  have hden : (0 : ℚ) < denOf q := by
    unfold denOf
    split <;> simp
  unfold atLeast at h
  by_cases he : 0 ≤ e
  · rw [if_pos he, decide_eq_true_eq, ← Nat.cast_le (α := ℚ)] at h
    obtain ⟨n, rfl⟩ := Int.eq_ofNat_of_zero_le he
    rw [Nat.cast_mul, numOf_eq, mul_le_mul_iff_right₀ hden] at h
    simpa using h
  · rw [if_neg he, decide_eq_true_eq, ← Nat.cast_le (α := ℚ)] at h
    obtain ⟨n, rfl⟩ : ∃ n : Nat, e = -n := ⟨(-e).toNat, by omega⟩
    rw [Nat.cast_mul, numOf_eq, mul_assoc, le_mul_iff_one_le_right hden] at h
    rw [zpow_neg, inv_le_iff_one_le_mul₀ (by positivity)]
    simpa using h

theorem leadingExponent_eq (m : Nat) (q : Int) :
    leadingExponent m q =
      let guess : Int := ((Nat.log2 m : Int) + q) * 30103 / 100000
      if atLeast m q (guess + 1) then guess + 1 else if atLeast m q guess then guess
      else guess - 1 :=
  rfl

theorem leadingExponent_le {m : Nat} {q : Int} (hm : m ≠ 0) (hlow : -1074 ≤ q) (hhigh : q ≤ 971)
    (hlt : m < 2 ^ 53) : (10 : ℚ) ^ leadingExponent m q ≤ m * 2 ^ q := by
  have hlog : Nat.log2 m < 53 := (Nat.log2_lt hm).2 hlt
  have hbits : (2 : ℚ) ^ ((Nat.log2 m : Int) + q) ≤ m * 2 ^ q := by
    rw [zpow_add₀ two_ne_zero, zpow_natCast]
    gcongr
    exact_mod_cast Nat.log2_self_le hm
  rw [leadingExponent_eq]
  simp only
  split
  · next h => exact ten_zpow_le_of_atLeast h
  · split
    · next h => exact ten_zpow_le_of_atLeast h
    · exact (ten_zpow_estimate_le (by omega) (by omega)).trans hbits

theorem shortest_covers {m : Nat} {q : Int} (hm : m ≠ 0) (hlow : -1074 ≤ q) (hhigh : q ≤ 971)
    (hlt : m < 2 ^ 53) :
    (shortest m q).1 ≠ 0 ∧ Covers m q ((shortest m q).1 * 10 ^ (shortest m q).2) := by
  -- Eighteen digits are finer than the gap to the next double.
  have hfine : (10 : ℚ) ^ (leadingExponent m q + 1 - (18 : Nat)) < 2 ^ (q - 1) := by
    have hm53 : (m : ℚ) < 2 ^ 53 := by exact_mod_cast hlt
    have hq : (0 : ℚ) < 2 ^ q := by positivity
    calc (10 : ℚ) ^ (leadingExponent m q + 1 - (18 : Nat))
        = 10 ^ leadingExponent m q / 10 ^ 17 := by
          rw [show leadingExponent m q + 1 - (18 : Nat) = leadingExponent m q - (17 : Nat) by
            push_cast; ring, zpow_sub₀ (by norm_num), zpow_natCast]
      _ ≤ m * 2 ^ q / 10 ^ 17 := by
          gcongr
          exact leadingExponent_le hm hlow hhigh hlt
      _ < 2 ^ q / 2 := by
          rw [div_lt_div_iff₀ (by norm_num) (by norm_num)]
          nlinarith
      _ = 2 ^ (q - 1) := by rw [zpow_sub₀ two_ne_zero, zpow_one]
  exact searchDigits_covers hm (by omega) (by omega) (onGrid_isSome hfine)

theorem stripZeros_value (fuel : Nat) (d : Nat) (k : Int) (hd : d ≠ 0) :
    (stripZeros fuel (d, k)).1 ≠ 0
      ∧ ((stripZeros fuel (d, k)).1 : ℚ) * 10 ^ (stripZeros fuel (d, k)).2 = d * 10 ^ k := by
  induction fuel generalizing d k with
  | zero => exact ⟨hd, rfl⟩
  | succ fuel ih =>
    unfold stripZeros
    split
    · next h =>
      simp only [bne_iff_ne, ne_eq, Bool.and_eq_true, beq_iff_eq] at h
      have hten : d = d / 10 * 10 := by omega
      have hrest := ih (d / 10) (k + 1) (by omega)
      refine ⟨hrest.1, hrest.2.trans ?_⟩
      conv_rhs => rw [hten]
      rw [zpow_add_one₀ (by norm_num)]
      push_cast
      ring
    · exact ⟨hd, rfl⟩

/-! ## Reading the text -/

def exponentOf : List Char → Int
  | '-' :: digits => -(Nat.ofDigitChars 10 digits 0 : Nat)
  | '+' :: digits => (Nat.ofDigitChars 10 digits 0 : Nat)
  | _ => 0

structure Written (x : ℚ) (whole frac tail : List Char) : Prop where
  digits : ∀ c ∈ whole ++ frac.drop 1, c.isDigit = true
  starts : whole ≠ []
  point : frac = [] ∨ ∃ places, frac = '.' :: places
  mark : tail = [] ∨ ∃ e, tail = 'e' :: e
  exponent : ∀ c ∈ tail.drop 1, c.isDigit = true ∨ c = '+' ∨ c = '-'
  told : frac ≠ [] ∨ tail ≠ []
  value : (Nat.ofDigitChars 10 (whole ++ frac.drop 1) 0 : ℚ)
    * 10 ^ (exponentOf (tail.drop 1) - ((frac.drop 1).length : Int)) = x

namespace Written

variable {x y : ℚ} {whole frac tail whole' frac' tail' : List Char}

theorem isDigit_or_point (h : Written x whole frac tail) {c : Char} (hc : c ∈ whole ++ frac) :
    c.isDigit = true ∨ c = '.' := by
  rcases List.mem_append.1 hc with hc | hc
  · exact .inl (h.digits c (List.mem_append_left _ hc))
  · rcases h.point with rfl | ⟨places, rfl⟩
    · simp at hc
    · rcases List.mem_cons.1 hc with rfl | hc
      · exact .inr rfl
      · exact .inl (h.digits c (List.mem_append_right _ hc))

theorem parts_unique (hx : Written x whole frac tail) (hy : Written y whole' frac' tail')
    (h : whole ++ frac ++ tail = whole' ++ frac' ++ tail') :
    whole = whole' ∧ frac = frac' ∧ tail = tail' := by
  have hmantissa : ∀ {x : ℚ} {whole frac tail : List Char}, Written x whole frac tail →
      (∀ c ∈ whole ++ frac, (c != 'e') = true) ∧ Stops (· != 'e') tail := by
    intro x whole frac tail hw
    constructor
    · intro c hc
      rcases hw.isDigit_or_point hc with hc | rfl
      · simpa using ne_of_isDigit hc rfl
      · rfl
    · rcases hw.mark with rfl | ⟨e, rfl⟩ <;> simp
  have hwhole : ∀ {x : ℚ} {whole frac tail : List Char}, Written x whole frac tail →
      (∀ c ∈ whole, (c != '.') = true) ∧ Stops (· != '.') frac := by
    intro x whole frac tail hw
    constructor
    · intro c hc
      simpa using ne_of_isDigit (hw.digits c (List.mem_append_left _ hc)) rfl
    · rcases hw.point with rfl | ⟨places, rfl⟩ <;> simp
  obtain ⟨hfront, htail⟩ := append_inj_of_stops (hmantissa hx).1 (hmantissa hy).1 (hmantissa hx).2
    (hmantissa hy).2 h
  obtain ⟨hleft, hright⟩ := append_inj_of_stops (hwhole hx).1 (hwhole hy).1 (hwhole hx).2
    (hwhole hy).2 hfront
  exact ⟨hleft, hright, htail⟩

theorem value_unique (hx : Written x whole frac tail) (hy : Written y whole' frac' tail')
    (h : whole ++ frac ++ tail = whole' ++ frac' ++ tail') : x = y := by
  obtain ⟨rfl, rfl, rfl⟩ := hx.parts_unique hy h
  exact hx.value.symm.trans hy.value

end Written

section
variable {digits : List Char} {d : Nat} {k : Int}

theorem written_places (hdigits : ∀ c ∈ digits, c.isDigit = true)
    (hvalue : Nat.ofDigitChars 10 digits 0 = d) {n : Nat} (hn : (n : Int) = -(k + digits.length)) :
    Written (d * 10 ^ k) ['0'] ('.' :: (List.replicate n '0' ++ digits)) [] where
  digits := by
    intro c hc
    simp only [List.drop_succ_cons, List.drop_zero, List.singleton_append, List.mem_cons,
      List.mem_append, List.mem_replicate] at hc
    rcases hc with rfl | ⟨-, rfl⟩ | hc
    · rfl
    · rfl
    · exact hdigits c hc
  starts := by simp
  point := .inr ⟨_, rfl⟩
  mark := .inl rfl
  exponent := by simp
  told := .inl (by simp)
  value := by
    have hexp : exponentOf ([].drop 1) - ((List.replicate n '0' ++ digits).length : Int) = k := by
      simp [exponentOf]
      omega
    rw [List.drop_succ_cons, List.drop_zero, hexp, List.singleton_append, Nat.ofDigitChars_cons,
      Nat.ofDigitChars_append, Nat.ofDigitChars_replicate_zero]
    simp [hvalue]

theorem written_whole (hdigits : ∀ c ∈ digits, c.isDigit = true) (hne : digits ≠ [])
    (hvalue : Nat.ofDigitChars 10 digits 0 = d) (n : Nat) :
    Written (d * 10 ^ (n : Int)) (digits ++ List.replicate n '0') ['.', '0'] [] where
  digits := by
    intro c hc
    simp only [List.drop_succ_cons, List.drop_zero, List.mem_append, List.mem_replicate,
      List.mem_singleton] at hc
    rcases hc with (hc | ⟨-, rfl⟩) | rfl
    · exact hdigits c hc
    · rfl
    · rfl
  starts := by simp [hne]
  point := .inr ⟨_, rfl⟩
  mark := .inl rfl
  exponent := by simp
  told := .inl (by simp)
  value := by
    rw [List.drop_succ_cons, List.drop_zero, List.append_assoc, Nat.ofDigitChars_append, hvalue,
      Nat.ofDigitChars_append, Nat.ofDigitChars_replicate_zero]
    simp [exponentOf, Nat.ofDigitChars_cons]
    ring

theorem written_mixed (hdigits : ∀ c ∈ digits, c.isDigit = true)
    (hvalue : Nat.ofDigitChars 10 digits 0 = d) {n : Nat} (hn : (n : Int) = k + digits.length)
    (hpos : 0 < n) (hk : k < 0) :
    Written (d * 10 ^ k) (digits.take n) ('.' :: digits.drop n) [] where
  digits := by
    rw [List.drop_succ_cons, List.drop_zero, List.take_append_drop]
    exact hdigits
  starts := by
    have : digits ≠ [] := by
      rintro rfl
      simp at hn
      omega
    simp [this]
    omega
  point := .inr ⟨_, rfl⟩
  mark := .inl rfl
  exponent := by simp
  told := .inl (by simp)
  value := by
    have hexp : exponentOf ([].drop 1) - ((digits.drop n).length : Int) = k := by
      simp [exponentOf]
      omega
    rw [List.drop_succ_cons, List.drop_zero, hexp, List.take_append_drop, hvalue]

theorem written_scientific (hdigits : ∀ c ∈ digits, c.isDigit = true) (hne : digits ≠ [])
    (hvalue : Nat.ofDigitChars 10 digits 0 = d) {frac e : List Char}
    (hfrac : frac = [] ∧ digits.drop 1 = [] ∨ frac = '.' :: digits.drop 1)
    (he : exponentOf e = k + digits.length - 1)
    (hchars : ∀ c ∈ e, c.isDigit = true ∨ c = '+' ∨ c = '-') :
    Written (d * 10 ^ k) (digits.take 1) frac ('e' :: e) := by
  have hplaces : frac.drop 1 = digits.drop 1 := by
    rcases hfrac with ⟨rfl, h⟩ | rfl
    · rw [h]
      rfl
    · rfl
  constructor
  case digits => rwa [hplaces, List.take_append_drop]
  case starts => simp [hne]
  case point => exact hfrac.imp And.left fun h => ⟨_, h⟩
  case mark => exact .inr ⟨e, rfl⟩
  case exponent => exact hchars
  case told => exact .inr (by simp)
  case value =>
    have hpos := List.length_pos_of_ne_nil hne
    have hexp : exponentOf (('e' :: e).drop 1) - ((digits.drop 1).length : Int) = k := by
      rw [List.drop_succ_cons, List.drop_zero, he, List.length_drop]
      omega
    rw [hplaces, hexp, List.take_append_drop, hvalue]

end

def exponentChars (e : Int) : List Char :=
  (if e < 0 then "-" else "+").toList
    ++ (if (toString e.natAbs).length < 2 then "0" ++ toString e.natAbs
      else toString e.natAbs).toList

theorem exponentChars_eq (e : Int) :
    ∃ digits, exponentChars e = (if e < 0 then '-' else '+') :: digits
      ∧ Nat.ofDigitChars 10 digits 0 = e.natAbs ∧ ∀ c ∈ digits, c.isDigit = true := by
  refine ⟨(if (toString e.natAbs).length < 2 then "0" ++ toString e.natAbs
      else toString e.natAbs).toList, ?_, ?_, ?_⟩
  · unfold exponentChars
    split <;> rfl
  · split <;> simp [Nat.ofDigitChars_cons, Nat.ofDigitChars_ten_toDigits]
  · intro c hc
    have hc : c = '0' ∨ c ∈ Nat.toDigits 10 e.natAbs := by
      split at hc
      · simpa using hc
      · exact .inr (by simpa using hc)
    rcases hc with rfl | hc
    · rfl
    · exact Nat.isDigit_of_mem_toDigits (by norm_num) (by norm_num) hc

theorem exponentOf_exponentChars (e : Int) : exponentOf (exponentChars e) = e := by
  obtain ⟨digits, hchars, hvalue, -⟩ := exponentChars_eq e
  rw [hchars]
  by_cases he : e < 0
  · rw [if_pos he, exponentOf, hvalue]
    omega
  · rw [if_neg he, exponentOf, hvalue]
    omega

theorem mem_exponentChars {e : Int} {c : Char} (h : c ∈ exponentChars e) :
    c.isDigit = true ∨ c = '+' ∨ c = '-' := by
  obtain ⟨digits, hchars, -, hdigits⟩ := exponentChars_eq e
  rw [hchars] at h
  rcases List.mem_cons.1 h with rfl | hc
  · split <;> simp
  · exact .inl (hdigits c hc)

theorem decimalText_written (d : Nat) (k : Int) :
    ∃ whole frac tail, (decimalText d k).toList = whole ++ frac ++ tail
      ∧ Written (d * 10 ^ k) whole frac tail := by
  have hdigits : ∀ c ∈ Nat.toDigits 10 d, c.isDigit = true := fun c =>
    Nat.isDigit_of_mem_toDigits (by norm_num) (by norm_num)
  have hvalue : Nat.ofDigitChars 10 (Nat.toDigits 10 d) 0 = d := Nat.ofDigitChars_ten_toDigits
  have hne : Nat.toDigits 10 d ≠ [] := Nat.toDigits_ne_nil
  have htext : (toString d).toList = Nat.toDigits 10 d := Nat.toList_repr
  unfold decimalText
  simp only [← String.length_toList, htext]
  generalize hdef : Nat.toDigits 10 d = digits at hdigits hvalue hne ⊢
  split
  · split
    · next hpoint =>
      have hn : ((-(k + digits.length)).toNat : Int) = -(k + digits.length) :=
        Int.toNat_of_nonneg (by omega)
      refine ⟨_, _, _, ?_, written_places hdigits hvalue hn⟩
      simp [zeros, hdef]
    · split
      · next hk =>
        obtain ⟨n, rfl⟩ := Int.eq_ofNat_of_zero_le hk
        refine ⟨_, _, _, ?_, written_whole hdigits hne hvalue n⟩
        simp [zeros, hdef]
      · next hpoint hk =>
        have hn : ((k + digits.length).toNat : Int) = k + digits.length :=
          Int.toNat_of_nonneg (by omega)
        refine ⟨_, _, _, ?_, written_mixed hdigits hvalue hn (by omega) (by omega)⟩
        simp
  · have hfrac : (if (String.ofList (digits.drop 1)).isEmpty then ""
          else "." ++ String.ofList (digits.drop 1)).toList = [] ∧ digits.drop 1 = []
        ∨ (if (String.ofList (digits.drop 1)).isEmpty then ""
          else "." ++ String.ofList (digits.drop 1)).toList = '.' :: digits.drop 1 := by
      by_cases htail : digits.drop 1 = []
      · exact .inl ⟨by rw [htail]; rfl, htail⟩
      · rw [if_neg (by simpa using htail)]
        exact .inr (by simp)
    refine ⟨_, _, _, ?_, written_scientific hdigits hne hvalue hfrac
      (exponentOf_exponentChars (k + digits.length - 1)) fun c => mem_exponentChars⟩
    simp only [String.toList_append, String.toList_ofList, List.append_assoc]
    rfl

/-! ## The text of a double -/

def sizeText (m : Nat) (q : Int) : String :=
  if m == 0 then "0.0"
  else decimalText (stripZeros 20 (shortest m q)).1 (stripZeros 20 (shortest m q)).2

theorem text_finite (negative : Bool) (m : Nat) (q : Int) :
    (text (.finite negative m q)).toList = (if negative then ['-'] else []) ++ (sizeText m q).toList := by
  unfold text sizeText
  cases negative <;> cases hm : (m == 0) <;> simp [hm]

theorem written_zero : Written 0 ['0'] ['.', '0'] [] where
  digits := by simp
  starts := by simp
  point := .inr ⟨_, rfl⟩
  mark := .inl rfl
  exponent := by simp
  told := .inl (by simp)
  value := by simp [Nat.ofDigitChars_cons]

theorem sizeText_written (m : Nat) (q : Int) :
    ∃ x whole frac tail, (sizeText m q).toList = whole ++ frac ++ tail
      ∧ Written x whole frac tail
      ∧ ∀ negative, IsCanonical (.finite negative m q) →
        if m = 0 then x = 0 else x ≠ 0 ∧ Covers m q x := by
  by_cases hm : m = 0
  · refine ⟨0, _, _, _, ?_, written_zero, ?_⟩
    · simp [sizeText, hm]
    · simp [hm]
  · obtain ⟨whole, frac, tail, htext, hwritten⟩ :=
      decimalText_written (stripZeros 20 (shortest m q)).1 (stripZeros 20 (shortest m q)).2
    refine ⟨_, whole, frac, tail, ?_, hwritten, ?_⟩
    · simpa [sizeText, hm] using htext
    · intro negative hcanonical
      obtain ⟨-, hlt, hlow, hhigh, -⟩ := hcanonical.resolve_left fun h => hm h.1
      obtain ⟨hne, hcovers⟩ := shortest_covers hm hlow hhigh hlt
      obtain ⟨hd, hvalue⟩ := stripZeros_value 20 (shortest m q).1 (shortest m q).2 hne
      rw [if_neg hm]
      constructor
      · exact mul_ne_zero (Nat.cast_ne_zero.2 hd) (zpow_ne_zero _ (by norm_num))
      · rwa [hvalue]

theorem sizeText_injective {m n : Nat} {q p : Int} {a b : Bool} (ha : IsCanonical (.finite a m q))
    (hb : IsCanonical (.finite b n p)) (h : sizeText m q = sizeText n p) : m = n ∧ q = p := by
  obtain ⟨x, whole, frac, tail, htext, hwritten, hx⟩ := sizeText_written m q
  obtain ⟨y, whole', frac', tail', htext', hwritten', hy⟩ := sizeText_written n p
  have hxy : x = y := hwritten.value_unique hwritten' (by rw [← htext, h, htext'])
  subst hxy
  have hx := hx a ha
  have hy := hy b hb
  by_cases hm : m = 0 <;> by_cases hn : n = 0 <;> simp only [hm, hn, if_true, if_false] at hx hy
  · subst hm hn
    simp only [IsCanonical] at ha hb
    omega
  · exact absurd hx hy.1
  · exact absurd hy hx.1
  · exact hx.2.unique ha hb hm hn hy.2

theorem sizeText_starts (m : Nat) (q : Int) :
    ∃ c rest, (sizeText m q).toList = c :: rest ∧ c.isDigit = true := by
  obtain ⟨x, whole, frac, tail, htext, hwritten, -⟩ := sizeText_written m q
  obtain ⟨c, rest, rfl⟩ := List.exists_cons_of_ne_nil hwritten.starts
  exact ⟨c, rest ++ frac ++ tail, htext, hwritten.digits c (by simp)⟩

theorem sizeText_ne {m : Nat} {q : Int} {a : Char} {cs : List Char} (ha : a.isDigit = false) :
    (sizeText m q).toList ≠ a :: cs := by
  obtain ⟨c, rest, htext, hdigit⟩ := sizeText_starts m q
  rw [htext]
  intro h
  exact ne_of_isDigit hdigit ha (List.cons.inj h).1

theorem text_finite_ne_infinite (a b : Bool) (m : Nat) (q : Int) :
    text (.finite a m q) ≠ text (.infinite b) := by
  intro h
  have h := congrArg String.toList h
  rw [text_finite] at h
  cases a <;> cases b
  · exact sizeText_ne rfl h
  · exact sizeText_ne rfl h
  · exact absurd (List.cons.inj h).1 (by decide)
  · exact sizeText_ne rfl (List.cons.inj h).2

theorem text_finite_ne_nan (a : Bool) (m : Nat) (q : Int) :
    text (.finite a m q) ≠ text .notANumber := by
  intro h
  have h := congrArg String.toList h
  rw [text_finite] at h
  cases a
  · exact sizeText_ne rfl h
  · exact absurd (List.cons.inj h).1 (by decide)

theorem text_injective {x y : Binary64} (hx : x.IsCanonical) (hy : y.IsCanonical)
    (h : x.text = y.text) : x = y := by
  cases x with
  | finite a m q =>
    cases y with
    | finite b n p =>
      have h := congrArg String.toList h
      rw [text_finite, text_finite] at h
      have hsign : a = b := by
        cases a with
        | false =>
          cases b with
          | false => rfl
          | true => exact absurd h (sizeText_ne rfl)
        | true =>
          cases b with
          | false => exact absurd h.symm (sizeText_ne rfl)
          | true => rfl
      subst hsign
      obtain ⟨rfl, rfl⟩ := sizeText_injective hx hy (String.toList_inj.1 (List.append_cancel_left h))
      rfl
    | infinite b => exact absurd h (text_finite_ne_infinite _ _ _ _)
    | notANumber => exact absurd h (text_finite_ne_nan _ _ _)
  | infinite a =>
    cases y with
    | finite b n p => exact absurd h.symm (text_finite_ne_infinite _ _ _ _)
    | infinite b =>
      have hsign : a = b := by
        revert h
        cases a <;> cases b <;> decide
      rw [hsign]
    | notANumber =>
      revert h
      cases a <;> decide
  | notANumber =>
    cases y with
    | finite b n p => exact absurd h.symm (text_finite_ne_nan _ _ _)
    | infinite b =>
      revert h
      cases b <;> decide
    | notANumber => rfl

/-! ## Characters of the text -/

def isNumeric (c : Char) : Bool :=
  c.isDigit || ['.', 'e', '+', '-', 'i', 'n', 'f', 'a'].contains c

theorem isNumeric_of_mem_text {x : Binary64} {c : Char} (h : c ∈ x.text.toList) :
    isNumeric c = true := by
  cases x with
  | finite a m q =>
    obtain ⟨x, whole, frac, tail, htext, hwritten, -⟩ := sizeText_written m q
    rw [text_finite, htext] at h
    have hcases : c = '-' ∨ c ∈ whole ++ frac ∨ c ∈ tail := by
      rcases List.mem_append.1 h with h | h
      · cases a <;> simp_all
      · exact .inr (List.mem_append.1 h)
    rcases hcases with rfl | h | h
    · rfl
    · rcases hwritten.isDigit_or_point h with h | rfl
      · simp [isNumeric, h]
      · rfl
    · rcases hwritten.mark with rfl | ⟨e, rfl⟩
      · simp at h
      · rcases List.mem_cons.1 h with rfl | h
        · rfl
        · rcases hwritten.exponent c h with h | rfl | rfl
          · simp [isNumeric, h]
          · rfl
          · rfl
  | infinite a =>
    cases a <;> fin_cases h <;> rfl
  | notANumber => fin_cases h <;> rfl

/-- The text is not that of an integer. -/
theorem exists_mem_text (x : Binary64) :
    ∃ c ∈ x.text.toList, c.isDigit = false ∧ c ≠ '-' := by
  cases x with
  | finite a m q =>
    obtain ⟨x, whole, frac, tail, htext, hwritten, -⟩ := sizeText_written m q
    rw [text_finite, htext]
    rcases hwritten.told with h | h
    · obtain ⟨places, rfl⟩ := hwritten.point.resolve_left h
      exact ⟨'.', by simp, rfl, by decide⟩
    · obtain ⟨e, rfl⟩ := hwritten.mark.resolve_left h
      exact ⟨'e', by simp, rfl, by decide⟩
  | infinite a => exact ⟨'n', by cases a <;> decide, rfl, by decide⟩
  | notANumber => exact ⟨'n', by decide, rfl, by decide⟩

end CodeAtlas.Binary64
