import CodeAtlas.Proofs.Numerals
import CodeAtlas.Proofs.Rounding
import CodeAtlas.Settings
import Mathlib.Algebra.Order.Floor.Semifield

/-!
# Numbers among the settings

A numeric setting is the integer that its value has, and the default where the value has none
(`Takes`); what stands under the other keys makes no difference. One kind of value is not replaced by the
default: with an infinite number under any of the keys there are no settings at all
(`ofDocument_numbers`).
-/

namespace CodeAtlas

/-! ## Integers of values -/

def towardZero (r : ℚ) : Int :=
  if 0 ≤ r then ⌊r⌋ else ⌈r⌉

theorem towardZero_natCast_floor {r : ℚ} (h : 0 ≤ r) : (towardZero r : Int) = (⌊r⌋₊ : Int) := by
  rw [towardZero, if_pos h, Int.natCast_floor_eq_floor h]

theorem towardZero_neg (r : ℚ) : towardZero (-r) = -towardZero r := by
  unfold towardZero
  rcases lt_trichotomy r 0 with h | rfl | h
  · rw [if_pos (by linarith), if_neg (by linarith), Int.floor_neg]
  · simp
  · rw [if_neg (by linarith), if_pos h.le, Int.ceil_neg]

theorem Binary64.truncate?_eq (x : Binary64) : x.truncate? = x.toRat?.map towardZero := by
  cases x with
  | infinite negative => rfl
  | notANumber => rfl
  | finite negative m q =>
    have hsize : (if 0 ≤ q then m * Nat.pow 2 q.toNat else m / Nat.pow 2 (-q).toNat) =
        ⌊(m * 2 ^ q : ℚ)⌋₊ := by
      rw [Binary64.two_zpow_eq]
      split
      · next h =>
        have hzero : (-q).toNat = 0 := by omega
        have hcast : (m * (2 ^ q.toNat / 2 ^ (-q).toNat) : ℚ) = ((m * 2 ^ q.toNat : Nat) : ℚ) := by
          simp [hzero]
        rw [hcast, Nat.floor_natCast]
        rfl
      · next h =>
        have hzero : q.toNat = 0 := by omega
        have hcast : (m * (2 ^ q.toNat / 2 ^ (-q).toNat) : ℚ) = (m : ℚ) / ((2 ^ (-q).toNat : Nat) : ℚ) := by
          simp [hzero, div_eq_mul_inv]
        rw [hcast, Nat.floor_div_eq_div]
        rfl
    have hnonneg : (0 : ℚ) ≤ m * 2 ^ q := by positivity
    rw [Binary64.toRat?_finite, Option.map_some]
    simp only [Binary64.truncate?, hsize, ← towardZero_natCast_floor hnonneg]
    cases negative with
    | true => rw [if_pos rfl, if_pos rfl, towardZero_neg]
    | false => rfl

namespace ConfigValue

/-- The values that have an integer: integers and truth values, finite numbers, and texts that spell
one. -/
inductive HasInteger : ConfigValue → Int → Prop
  | int (n : Int) : HasInteger (.int n) n
  | true : HasInteger (.bool true) 1
  | false : HasInteger (.bool false) 0
  | real {x : Binary64} {r : ℚ} (h : x.toRat? = some r) : HasInteger (.real x) (towardZero r)
  | text {s : String} {n : Int} (h : Integer.Spells s.toList n) : HasInteger (.text s) n

def integer? : ConfigValue → Option Int
  | .int n => some n
  | .bool b => some (if b then 1 else 0)
  | .real x => x.truncate?
  | .text s => Integer.ofText? s
  | _ => none

theorem integer?_eq_some_iff (v : ConfigValue) (n : Int) : v.integer? = some n ↔ v.HasInteger n := by
  constructor
  · intro h
    cases v with
    | int m =>
      cases h
      exact .int _
    | bool b =>
      cases h
      cases b with
      | true => exact .true
      | false => exact .false
    | real x =>
      rw [integer?, Binary64.truncate?_eq] at h
      obtain ⟨r, hr, rfl⟩ := Option.map_eq_some_iff.1 h
      exact .real hr
    | text s => exact .text ((Integer.ofText?_eq_some_iff s n).1 h)
    | _ => cases h
  · intro h
    cases h with
    | int => rfl
    | true => rfl
    | false => rfl
    | real h => rw [integer?, Binary64.truncate?_eq, h, Option.map_some]
    | text h => exact (Integer.ofText?_eq_some_iff _ n).2 h

def IsInfinite (v : ConfigValue) : Prop :=
  ∃ negative, v = .real (.infinite negative)

theorem IsInfinite.no_integer {v : ConfigValue} (h : v.IsInfinite) (n : Int) : ¬ v.HasInteger n := by
  obtain ⟨negative, rfl⟩ := h
  rw [← integer?_eq_some_iff]
  intro heq
  cases heq

end ConfigValue

namespace Settings

theorem integerOf_of_infinite {v : ConfigValue} (h : v.IsInfinite) (default : Int) :
    integerOf v default = .error .infinite := by
  obtain ⟨negative, rfl⟩ := h
  rfl

theorem integerOf_of_not_infinite {v : ConfigValue} (h : ¬ v.IsInfinite) (default : Int) :
    integerOf v default = .ok (v.integer?.getD default) := by
  cases v with
  | real x =>
    cases x with
    | infinite negative => exact absurd ⟨negative, rfl⟩ h
    | _ => rfl
  | bool b => cases b <;> rfl
  | _ => rfl

/-! ## Settings one by one -/

/-- The integer of the value that is given, or the default if there is no value or none with an
integer. -/
def Takes (given : Option ConfigValue) (default n : Int) : Prop :=
  (∃ v, given = some v ∧ v.HasInteger n) ∨
  (∀ v, given = some v → ∀ m, ¬ v.HasInteger m) ∧ n = default

theorem takes_iff (given : Option ConfigValue) (default n : Int) :
    Takes given default n ↔ (given.bind ConfigValue.integer?).getD default = n := by
  simp only [Takes, ← ConfigValue.integer?_eq_some_iff]
  cases given with
  | none => simp [eq_comm]
  | some v =>
    cases h : v.integer? with
    | none => simp [h, eq_comm]
    | some m => simp [h]

theorem integerAt_cases (members : List (String × ConfigValue)) (name : String) (default : Int) :
    (∃ v, members.lookup name = some v ∧ v.IsInfinite ∧
      integerAt members name default = .error .infinite) ∨
    (∀ v, members.lookup name = some v → ¬ v.IsInfinite) ∧
      ∃ n, Takes (members.lookup name) default n ∧ integerAt members name default = .ok n := by
  unfold integerAt
  cases hv : members.lookup name with
  | none => exact .inr ⟨by simp, default, (takes_iff _ _ _).2 rfl, rfl⟩
  | some v =>
    by_cases hinfinite : v.IsInfinite
    · exact .inl ⟨v, rfl, hinfinite, integerOf_of_infinite hinfinite default⟩
    · right
      refine ⟨?_, _, (takes_iff _ _ _).2 rfl, integerOf_of_not_infinite hinfinite default⟩
      rintro w ⟨⟩
      exact hinfinite

def numericFields : List (String × (Settings → Int)) :=
  [("max_files", maxFiles), ("concurrency", concurrency), ("llm_min_files", minModelFiles),
   ("llm_max_files", maxModelFiles), ("llm_timeout", timeout), ("llm_max_tokens", maxTokens)]

theorem sectionOf_of_table {members : List (String × ConfigValue)} {name : String}
    {table : List (String × ConfigValue)} (h : (members.lookup name).getD (.table []) = .table table) :
    sectionOf members name = .ok table := by
  unfold sectionOf
  cases hv : members.lookup name with
  | none =>
    rw [hv] at h
    cases h
    rfl
  | some v =>
    rw [hv] at h
    cases h
    cases table <;> rfl

theorem providerOf_of_texts (environment : List (String × String)) {llm : List (String × ConfigValue)}
    (h : ∀ m ∈ llm, ∃ s, m.2 = .text s) : ∃ provider, providerOf environment llm = .ok provider := by
  unfold providerOf
  cases hfound : (fromEnvironment? environment "REPOGRAPH_LLM_PROVIDER").or
      (ConfigValue.present? (llm.lookup "provider")) with
  | none => exact ⟨_, rfl⟩
  | some v =>
    have htext : ∃ s, v = .text s := by
      rcases Option.or_eq_some_iff.1 hfound with henvironment | ⟨-, hpresent⟩
      · obtain ⟨s, -, rfl⟩ := Option.map_eq_some_iff.1 henvironment
        exact ⟨s, rfl⟩
      · obtain ⟨front, back, rfl, -⟩ := List.lookup_eq_some_iff.1 (Option.filter_eq_some_iff.1 hpresent).1
        exact h ("provider", v) (by simp)
    obtain ⟨s, rfl⟩ := htext
    exact ⟨_, rfl⟩

section
variable {members llm analysis : List (String × ConfigValue)}
  (hllm : (members.lookup "llm").getD (.table []) = .table llm)
  (htexts : ∀ m ∈ llm, ∃ s, m.2 = .text s)
  (hanalysis : (members.lookup "analysis").getD (.table []) = .table analysis)
include hllm htexts hanalysis

/-- The keys are read one after the other; the first infinite number ends it. -/
theorem ofDocument_cases (environment : List (String × String)) :
    ((∃ field ∈ numericFields, ∃ v, analysis.lookup field.1 = some v ∧ v.IsInfinite) ∧
      ofDocument (.table members) environment = .error .infinite) ∨
    (∀ field ∈ numericFields, ∀ v, analysis.lookup field.1 = some v → ¬ v.IsInfinite) ∧
      ∃ s, ofDocument (.table members) environment = .ok s ∧
        ∀ field ∈ numericFields, Takes (analysis.lookup field.1) (field.2 {}) (field.2 s) := by
  obtain ⟨provider, hprovider⟩ := providerOf_of_texts environment htexts
  unfold ofDocument
  simp only [sectionOf_of_table hllm, sectionOf_of_table hanalysis, hprovider, bind, Except.bind]
  rcases integerAt_cases analysis "max_files" 1000 with ⟨v, hv, hi, h⟩ | ⟨i₁, n₁, t₁, h₁⟩
  · exact .inl ⟨⟨("max_files", maxFiles), by simp [numericFields], v, hv, hi⟩, by simp only [h]⟩
  rcases integerAt_cases analysis "concurrency" 8 with ⟨v, hv, hi, h⟩ | ⟨i₂, n₂, t₂, h₂⟩
  · exact .inl ⟨⟨("concurrency", concurrency), by simp [numericFields], v, hv, hi⟩, by simp only [h₁, h]⟩
  rcases integerAt_cases analysis "llm_min_files" 5 with ⟨v, hv, hi, h⟩ | ⟨i₃, n₃, t₃, h₃⟩
  · exact .inl ⟨⟨("llm_min_files", minModelFiles), by simp [numericFields], v, hv, hi⟩,
      by simp only [h₁, h₂, h]⟩
  rcases integerAt_cases analysis "llm_max_files" 20 with ⟨v, hv, hi, h⟩ | ⟨i₄, n₄, t₄, h₄⟩
  · exact .inl ⟨⟨("llm_max_files", maxModelFiles), by simp [numericFields], v, hv, hi⟩,
      by simp only [h₁, h₂, h₃, h]⟩
  rcases integerAt_cases analysis "llm_timeout" 30 with ⟨v, hv, hi, h⟩ | ⟨i₅, n₅, t₅, h₅⟩
  · exact .inl ⟨⟨("llm_timeout", timeout), by simp [numericFields], v, hv, hi⟩,
      by simp only [h₁, h₂, h₃, h₄, h]⟩
  rcases integerAt_cases analysis "llm_max_tokens" 800 with ⟨v, hv, hi, h⟩ | ⟨i₆, n₆, t₆, h₆⟩
  · exact .inl ⟨⟨("llm_max_tokens", maxTokens), by simp [numericFields], v, hv, hi⟩,
      by simp only [h₁, h₂, h₃, h₄, h₅, h]⟩
  simp only [h₁, h₂, h₃, h₄, h₅, h₆, numericFields, List.forall_mem_cons]
  exact .inr ⟨⟨i₁, i₂, i₃, i₄, i₅, i₆, by simp⟩, _, rfl, t₁, t₂, t₃, t₄, t₅, t₆, by simp⟩

end

/-- The numbers of any document whose two sections are tables (one that is missing is an empty one), with
texts in the first, in any environment. There are settings exactly if no key has an infinite number; each
numeric setting is then the integer of the value under its own key, and the default without one. Else the
infinite number is the fault. -/
theorem ofDocument_numbers (members llm analysis : List (String × ConfigValue))
    (environment : List (String × String))
    (hllm : (members.lookup "llm").getD (.table []) = .table llm)
    (htexts : ∀ m ∈ llm, ∃ s, m.2 = .text s)
    (hanalysis : (members.lookup "analysis").getD (.table []) = .table analysis) :
    ((∃ s, ofDocument (.table members) environment = .ok s) ↔
      ∀ field ∈ numericFields, ∀ v, analysis.lookup field.1 = some v → ¬ v.IsInfinite) ∧
    (∀ s, ofDocument (.table members) environment = .ok s → ∀ field ∈ numericFields, ∀ n,
      field.2 s = n ↔ Takes (analysis.lookup field.1) (field.2 {}) n) ∧
    (∀ e, ofDocument (.table members) environment = .error e ↔ e = .infinite ∧
      ∃ field ∈ numericFields, ∃ v, analysis.lookup field.1 = some v ∧ v.IsInfinite) := by
  rcases ofDocument_cases hllm htexts hanalysis environment with
    ⟨hinfinite, herror⟩ | ⟨hfinite, s, hs, htakes⟩
  · rw [herror]
    obtain ⟨field, hfield, v, hv, hi⟩ := hinfinite
    refine ⟨⟨?_, fun h => absurd hi (h field hfield v hv)⟩, ?_, ?_⟩
    · rintro ⟨s, ⟨⟩⟩
    · rintro s ⟨⟩
    · intro e
      rw [Except.error.injEq]
      constructor
      · rintro rfl
        exact ⟨rfl, field, hfield, v, hv, hi⟩
      · exact fun h => h.1.symm
  · rw [hs]
    refine ⟨⟨fun _ => hfinite, fun _ => ⟨s, rfl⟩⟩, ?_, ?_⟩
    · rintro _ ⟨⟩ field hfield n
      rw [takes_iff, ← (takes_iff _ _ _).1 (htakes field hfield)]
    · intro e
      simp only [reduceCtorEq, false_iff]
      rintro ⟨-, field, hfield, v, hv, hi⟩
      exact hfinite field hfield v hv hi

/-- Values of several types: a text with digits of another script, a fraction, and two values without an
integer. -/
theorem ofDocument_of_mixed_values :
    let analysis : List (String × ConfigValue) :=
      [("max_files", .text " +1_\u0660 "), ("concurrency", .real (.finite true 5 (-1))),
       ("llm_timeout", .null), ("llm_max_tokens", .real .notANumber)]
    ∃ s, ofDocument (.table [("analysis", .table analysis)]) [] = .ok s ∧
      s.maxFiles = 10 ∧ s.concurrency = -2 ∧ s.timeout = 30 ∧ s.maxTokens = 800 := by
  intro analysis
  have hnumbers := ofDocument_numbers [("analysis", .table analysis)] [] analysis [] rfl (by simp) rfl
  have hfinite : ∀ field ∈ numericFields, ∀ v, analysis.lookup field.1 = some v → ¬ v.IsInfinite := by
    simp only [numericFields, List.forall_mem_cons]
    refine ⟨?_, ?_, ?_, ?_, ?_, ?_, by simp⟩
    all_goals
      rintro v ⟨⟩ ⟨negative, ⟨⟩⟩
  obtain ⟨s, hs⟩ := hnumbers.1.2 hfinite
  have hfields := hnumbers.2.1 s hs
  simp only [numericFields, List.forall_mem_cons, takes_iff] at hfields
  obtain ⟨hfiles, hconcurrency, -, -, htimeout, htokens, -⟩ := hfields
  exact ⟨s, hs, (hfiles 10).2 (by decide +kernel), (hconcurrency (-2)).2 (by decide +kernel),
    (htimeout 30).2 rfl, (htokens 800).2 rfl⟩

/-- An infinite number takes all settings with it, where a value that is no number does not. -/
theorem ofDocument_of_infinite_number :
    let settings (v : ConfigValue) : Except SettingsError Settings :=
      ofDocument (.table [("llm", .table []), ("analysis", .table [("max_files", v)])]) []
    settings (.real (.infinite false)) = .error .infinite ∧
    (∀ n, ¬ ConfigValue.HasInteger (.real (.infinite false)) n) ∧
    (settings (.real .notANumber)).map maxFiles = .ok 1000 := by
  refine ⟨rfl, ConfigValue.IsInfinite.no_integer ⟨false, rfl⟩, rfl⟩

end Settings

end CodeAtlas
