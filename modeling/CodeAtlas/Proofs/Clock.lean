import CodeAtlas.Seconds
import CodeAtlas.Proofs.Rounding

/-!
# Clocks

Readings stand in a line, up to infinity on both sides (`level`), and ages are differences of them. In a
clock of one kind the age of an earlier moment at a later reading is no smaller (`reaches_since_mono`).
-/

namespace CodeAtlas.Seconds

/-! ## The order of readings -/

def level : Seconds → Option (WithBot (WithTop ℚ))
  | whole n => some (WithBot.some (WithTop.some (n : ℚ)))
  | real x => x.level

@[simp] theorem level_whole (n : Int) : (whole n).level = some (WithBot.some (WithTop.some (n : ℚ))) := rfl

@[simp] theorem level_highest : (real (.infinite false)).level = some ⊤ := rfl

@[simp] theorem level_lowest : (real (.infinite true)).level = some ⊥ := rfl

@[simp] theorem level_notANumber : (real .notANumber).level = none := rfl

theorem level_of_toRat? {a : Seconds} {r : ℚ} (h : a.toRat? = some r) :
    a.level = some (WithBot.some (WithTop.some r)) := by
  cases a with
  | whole n => simpa [toRat?, level] using h
  | real x => exact Binary64.level_of_toRat? h

theorem cases_of_toRat? {a : Seconds} (h : a.toRat? = none) : a = real (.infinite true) ∨
    a = real (.infinite false) ∨ a = real .notANumber := by
  cases a with
  | whole n => simp [toRat?] at h
  | real x =>
    cases x with
    | finite s m q => simp [toRat?, Binary64.toRat?] at h
    | infinite s => cases s <;> simp
    | notANumber => simp

/-- Both comparisons are those of the levels. -/
theorem compare_levels (a b : Seconds) :
    (a.reaches b = true ↔ ∃ x y, a.level = some x ∧ b.level = some y ∧ y ≤ x) ∧
      (a.isBefore b = true ↔ ∃ x y, a.level = some x ∧ b.level = some y ∧ x < y) := by
  unfold reaches isBefore
  cases ha : a.toRat? with
  | some x =>
    have hx := level_of_toRat? ha
    cases hb : b.toRat? with
    | some y => simp [hx, level_of_toRat? hb]
    | none => rcases cases_of_toRat? hb with rfl | rfl | rfl <;> simp [hx, isInfinite, lt_top_iff_ne_top]
  | none =>
    cases hb : b.toRat? with
    | some y =>
      have hy := level_of_toRat? hb
      rcases cases_of_toRat? ha with rfl | rfl | rfl <;> simp [hy, isInfinite]
    | none =>
      rcases cases_of_toRat? ha with rfl | rfl | rfl <;>
        rcases cases_of_toRat? hb with rfl | rfl | rfl <;> simp [isInfinite]

theorem reaches_iff (a b : Seconds) :
    a.reaches b = true ↔ ∃ x y, a.level = some x ∧ b.level = some y ∧ y ≤ x :=
  (compare_levels a b).1

theorem isBefore_iff (a b : Seconds) :
    a.isBefore b = true ↔ ∃ x y, a.level = some x ∧ b.level = some y ∧ x < y :=
  (compare_levels a b).2

theorem isBefore_asymm {a b : Seconds} (h : a.isBefore b = true) : b.isBefore a = false := by
  obtain ⟨x, y, hx, hy, hlt⟩ := (isBefore_iff a b).mp h
  rw [← Bool.not_eq_true, isBefore_iff]
  rintro ⟨y', x', hy', hx', hlt'⟩
  rw [hx] at hx'
  rw [hy] at hy'
  rw [← Option.some.inj hx', ← Option.some.inj hy'] at hlt'
  exact lt_asymm hlt hlt'

theorem reaches_of_isBefore {a b : Seconds} (h : a.isBefore b = true) : b.reaches a = true := by
  obtain ⟨x, y, hx, hy, hlt⟩ := (isBefore_iff a b).mp h
  exact (reaches_iff b a).mpr ⟨y, x, hy, hx, hlt.le⟩

/-! ## Ages -/

/-- The reading is a double or can be taken for one, and so can differences of such. -/
def IsExact : Seconds → Prop
  | whole n => n.natAbs < 2 ^ 52
  | real _ => True

instance : DecidablePred IsExact
  | whole n => inferInstanceAs (Decidable (n.natAbs < 2 ^ 52))
  | real _ => isTrue trivial

/-- A clock reads whole seconds, or doubles. A clock that changed from large whole numbers to doubles
would see ages that shrink. -/
def OneKind (readings : List Seconds) : Prop :=
  (∀ t ∈ readings, ∃ n, t = whole n) ∨ ∀ t ∈ readings, t.IsExact

theorem level_toBinary64 {a : Seconds} (h : a.IsExact) : a.toBinary64.level = a.level := by
  cases a with
  | whole n => exact Binary64.level_of_toRat? (Binary64.ofRat_intCast (lt_trans h (by norm_num)))
  | real x => rfl

theorem level_since {a b : Seconds} (ha : a.IsExact) (hb : b.IsExact) :
    (a.since b).level = (a.toBinary64.sub b.toBinary64).level := by
  cases a with
  | real x => rfl
  | whole m =>
    cases b with
    | real y => rfl
    | whole n =>
      have hm : m.natAbs < 2 ^ 52 := ha
      have hn : n.natAbs < 2 ^ 52 := hb
      have hdiff : (m - n).natAbs < 2 ^ 53 := by omega
      rw [show (whole m).toBinary64 = .ofRat m from rfl, show (whole n).toBinary64 = .ofRat n from rfl,
        Binary64.level_sub (Binary64.ofRat_intCast (by omega)) (Binary64.ofRat_intCast (by omega)),
        ← Int.cast_sub, Binary64.level_of_toRat? (Binary64.ofRat_intCast hdiff)]
      rfl

theorem since_mono {a b x y : Seconds} (h : OneKind [a, b, x, y]) {k l m n u : WithBot (WithTop ℚ)}
    (ha : a.level = some k) (hb : b.level = some l) (hx : x.level = some m) (hy : y.level = some n)
    (hab : k ≤ l) (hbx : l ≤ m) (hxy : m ≤ n) (hu : (x.since b).level = some u) :
    ∃ v, (y.since a).level = some v ∧ u ≤ v := by
  rcases h with hwhole | hexact
  · obtain ⟨i, rfl⟩ := hwhole a (by simp)
    obtain ⟨j, rfl⟩ := hwhole b (by simp)
    obtain ⟨p, rfl⟩ := hwhole x (by simp)
    obtain ⟨q, rfl⟩ := hwhole y (by simp)
    simp only [level_whole, Option.some.injEq] at ha hb hx hy
    subst ha hb hx hy
    have hij : i ≤ j := by simpa using hab
    have hpq : p ≤ q := by simpa using hxy
    refine ⟨_, rfl, ?_⟩
    have hle : ((p - j : Int) : ℚ) ≤ ((q - i : Int) : ℚ) := by exact_mod_cast sub_le_sub hpq hij
    rw [← Option.some.inj hu]
    exact WithBot.coe_le_coe.mpr (WithTop.coe_le_coe.mpr hle)
  · have hea := hexact a (by simp)
    have heb := hexact b (by simp)
    have hex := hexact x (by simp)
    have hey := hexact y (by simp)
    rw [← level_toBinary64 hea] at ha
    rw [← level_toBinary64 heb] at hb
    rw [← level_toBinary64 hex] at hx
    rw [← level_toBinary64 hey] at hy
    rw [level_since hex heb] at hu
    rw [level_since hey hea]
    exact Binary64.sub_mono ha hb hx hy hab hbx hxy hu

/-- What is too old stays so, and what came before it is too old as well. -/
theorem reaches_since_mono {a b x y limit : Seconds} (h : OneKind [a, b, x, y]) (hab : b.reaches a = true)
    (hbx : x.reaches b = true) (hxy : y.reaches x = true) (hold : (x.since b).reaches limit = true) :
    (y.since a).reaches limit = true := by
  obtain ⟨l, k, hl, hk, hkl⟩ := (reaches_iff b a).mp hab
  obtain ⟨m, l', hm, hl', hlm⟩ := (reaches_iff x b).mp hbx
  obtain ⟨n, m', hn, hm', hmn⟩ := (reaches_iff y x).mp hxy
  obtain ⟨u, w, hu, hw, hwu⟩ := (reaches_iff _ _).mp hold
  obtain rfl : l = l' := by simpa [hl] using hl'
  obtain rfl : m = m' := by simpa [hm] using hm'
  obtain ⟨v, hv, huv⟩ := since_mono h hk hl hm hn hkl hlm hmn hu
  exact (reaches_iff _ _).mpr ⟨v, w, hv, hw, hwu.trans huv⟩

end CodeAtlas.Seconds
