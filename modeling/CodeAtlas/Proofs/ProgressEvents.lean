import CodeAtlas.Progress
import CodeAtlas.Proofs.ExactDifferences
import Mathlib.Tactic.IntervalCases

/-!
# The events that a throttle passes on

The event of a file is passed on if the file is the last one, or if the time since the event before
it is not below the interval (`passed_iff`). So the counts grow, the last one is that of all files,
and two events that follow each other lie an interval apart. What is measured is a rounded difference
of readings; on a clock that does not go back the true one is not below the interval either
(`fileEvents_throttled`).
-/

namespace CodeAtlas.Throttle

/-! ## One file -/

theorem fileDone_cases (t : Throttle) (now : Seconds) :
    (t.done + 1 ≠ t.total ∧ (now.since t.lastEmit).isBefore t.interval = true ∧
      t.fileDone now = ({ t with done := t.done + 1 }, none)) ∨
    ((t.done + 1 = t.total ∨ (now.since t.lastEmit).isBefore t.interval = false) ∧
      t.fileDone now = ({ t with done := t.done + 1, lastEmit := now },
        some (counted (t.done + 1) t.total))) := by
  unfold fileDone
  dsimp only
  by_cases h : t.done + 1 ≠ t.total ∧ (now.since t.lastEmit).isBefore t.interval = true
  · exact .inl ⟨h.1, h.2, if_pos h⟩
  · refine .inr ⟨?_, if_neg h⟩
    rw [not_and_or, not_not, Bool.not_eq_true] at h
    exact h

/-! ## All files -/

section
variable (total : Int) (interval : Seconds) (clock : Nat → Seconds)

def stateAt : Nat → Throttle
  | 0 => { total, interval }
  | i + 1 => ((stateAt i).fileDone (clock i)).1

def eventAt (i : Nat) : Option Progress :=
  ((stateAt total interval clock i).fileDone (clock i)).2

theorem fileEvents_stateAt (count i : Nat) :
    (stateAt total interval clock i).fileEvents ((List.range' i count).map clock) =
      (List.range' i count).map (eventAt total interval clock) := by
  induction count generalizing i with
  | zero => rfl
  | succ count ih =>
    rw [List.range'_succ, List.map_cons, List.map_cons, fileEvents]
    exact congrArg _ (ih (i + 1))

theorem fileEvents_range (n : Nat) :
    fileEvents { total, interval } ((List.range n).map clock) =
      (List.range n).map (eventAt total interval clock) := by
  rw [List.range_eq_range']
  exact fileEvents_stateAt total interval clock n 0

theorem stateAt_frame (i : Nat) : (stateAt total interval clock i).done = i ∧
    (stateAt total interval clock i).total = total ∧
    (stateAt total interval clock i).interval = interval := by
  induction i with
  | zero => exact ⟨rfl, rfl, rfl⟩
  | succ i ih =>
    obtain ⟨hdone, htotal, hinterval⟩ := ih
    rw [stateAt]
    rcases fileDone_cases (stateAt total interval clock i) (clock i) with ⟨-, -, heq⟩ | ⟨-, heq⟩ <;>
    · rw [heq]
      refine ⟨?_, htotal, hinterval⟩
      simp only [hdone]
      push_cast
      rfl

/-- One step of the run: what is passed on, and which reading is kept. -/
theorem eventAt_cases (i : Nat) :
    ((i + 1 : Int) ≠ total ∧
      ((clock i).since (stateAt total interval clock i).lastEmit).isBefore interval = true ∧
      eventAt total interval clock i = none ∧
      (stateAt total interval clock (i + 1)).lastEmit = (stateAt total interval clock i).lastEmit) ∨
    (((i + 1 : Int) = total ∨
        ((clock i).since (stateAt total interval clock i).lastEmit).isBefore interval = false) ∧
      eventAt total interval clock i = some (counted (i + 1) total) ∧
      (stateAt total interval clock (i + 1)).lastEmit = clock i) := by
  obtain ⟨hdone, htotal, hinterval⟩ := stateAt_frame total interval clock i
  have hcases := fileDone_cases (stateAt total interval clock i) (clock i)
  rw [hdone, htotal, hinterval] at hcases
  rw [eventAt, stateAt]
  rcases hcases with ⟨hnot, hbefore, heq⟩ | ⟨hpass, heq⟩
  · exact .inl ⟨hnot, hbefore, by rw [heq], by rw [heq]⟩
  · exact .inr ⟨hpass, by rw [heq], by rw [heq]⟩

end

/-! ## What is passed on -/

def Passed (events : List (Option Progress)) (i : Nat) : Prop :=
  ∃ e, events[i]? = some (some e)

/-- The reading at the last event passed on before a file was done; the start of the count if there
was none. -/
inductive LastBefore (events : List (Option Progress)) (clock : Nat → Seconds) (i : Nat) : Seconds → Prop
  | start (h : ∀ l < i, ¬ Passed events l) : LastBefore events clock i (.real (.finite false 0 0))
  | passed {k : Nat} (hk : k < i) (h : Passed events k) (hnone : ∀ l, k < l → l < i → ¬ Passed events l) :
      LastBefore events clock i (clock k)

structure Consecutive (events : List (Option Progress)) (i j : Nat) : Prop where
  lt : i < j
  first : Passed events i
  second : Passed events j
  between : ∀ l, i < l → l < j → ¬ Passed events l

theorem Consecutive.lastBefore_eq {events : List (Option Progress)} {clock : Nat → Seconds} {i j : Nat}
    (h : Consecutive events i j) {last : Seconds} (hlast : LastBefore events clock j last) :
    last = clock i := by
  cases hlast with
  | start hnone => exact absurd h.first (hnone i h.lt)
  | @passed k hk hpassed hnone =>
    rcases lt_trichotomy i k with hik | rfl | hki
    · exact absurd hpassed (h.between k hik hk)
    · rfl
    · exact absurd h.first (hnone i hki h.lt)

section
variable (n : Nat) (interval : Seconds) (clock : Nat → Seconds)

def eventsOf : List (Option Progress) :=
  fileEvents { total := n, interval } ((List.range n).map clock)

theorem eventsOf_eq : eventsOf n interval clock = (List.range n).map (eventAt n interval clock) :=
  fileEvents_range n interval clock n

theorem passed_eventsOf_iff (i : Nat) :
    Passed (eventsOf n interval clock) i ↔ i < n ∧ (eventAt n interval clock i).isSome = true := by
  rw [Passed, eventsOf_eq, List.getElem?_map]
  by_cases hi : i < n
  · simp [hi, Option.isSome_iff_exists]
  · simp [hi]

theorem lastBefore_stateAt {i : Nat} (hi : i ≤ n) :
    LastBefore (eventsOf n interval clock) clock i (stateAt n interval clock i).lastEmit := by
  induction i with
  | zero => exact .start fun l hl => absurd hl (Nat.not_lt_zero l)
  | succ i ih =>
    have hlast := ih (by omega)
    have hpassed := passed_eventsOf_iff n interval clock i
    rcases eventAt_cases n interval clock i with ⟨-, -, hevent, hkept⟩ | ⟨-, hevent, hkept⟩
    · have hnot : ¬ Passed (eventsOf n interval clock) i := by simp [hpassed, hevent]
      have hextend : ∀ l, l < i + 1 → (l < i → ¬ Passed (eventsOf n interval clock) l) →
          ¬ Passed (eventsOf n interval clock) l := by
        intro l hl hbefore
        rcases Nat.lt_succ_iff_lt_or_eq.mp hl with hlt | rfl
        · exact hbefore hlt
        · exact hnot
      rw [hkept]
      generalize (stateAt n interval clock i).lastEmit = last at hlast
      cases hlast with
      | start hnone => exact .start fun l hl => hextend l hl (hnone l)
      | passed hk hpass hnone =>
        exact .passed (by omega) hpass fun l hkl hl => hextend l hl (hnone l hkl)
    · rw [hkept]
      exact .passed (Nat.lt_succ_self i) (hpassed.mpr ⟨by omega, by simp [hevent]⟩)
        fun l hil hl => absurd hil (by omega)

theorem passed_iff {i : Nat} (hi : i < n) : Passed (eventsOf n interval clock) i ↔
    i + 1 = n ∨ ((clock i).since (stateAt n interval clock i).lastEmit).isBefore interval = false := by
  rw [passed_eventsOf_iff]
  rcases eventAt_cases n interval clock i with ⟨hnot, hbefore, hevent, -⟩ | ⟨hpass, hevent, -⟩
  · have hne : i + 1 ≠ n := by exact_mod_cast hnot
    simp [hevent, hbefore, hne]
  · have hpass' : i + 1 = n ∨
        ((clock i).since (stateAt n interval clock i).lastEmit).isBefore interval = false := by
      exact_mod_cast hpass
    simp [hevent, hi, hpass']

theorem counts_increase :
    (((eventsOf n interval clock).filterMap id).filterMap Progress.done).Pairwise (· < ·) := by
  rw [eventsOf_eq, List.filterMap_map, List.filterMap_filterMap, List.pairwise_filterMap]
  have hcount : ∀ i : Nat, ∀ k ∈ (eventAt n interval clock i).bind Progress.done, k = i + 1 := by
    intro i k hk
    rcases eventAt_cases n interval clock i with ⟨-, -, hevent, -⟩ | ⟨-, hevent, -⟩
    · rw [hevent] at hk
      cases hk
    · rw [hevent] at hk
      exact (Option.some.inj hk).symm
  refine List.pairwise_lt_range.imp fun hij k hk l hl => ?_
  rw [hcount _ k hk, hcount _ l hl]
  omega

theorem getLast?_eventsOf (hn : 1 ≤ n) :
    ((eventsOf n interval clock).filterMap id).getLast? = some (counted n n) := by
  obtain ⟨m, rfl⟩ := Nat.exists_eq_add_of_le' hn
  have hlast : eventAt (m + 1 : Nat) interval clock m = some (counted (m + 1 : Nat) (m + 1 : Nat)) := by
    rcases eventAt_cases (m + 1 : Nat) interval clock m with ⟨hnot, -⟩ | ⟨-, hevent, -⟩
    · exact absurd (by push_cast; rfl) hnot
    · rw [hevent]
      push_cast
      rfl
  rw [eventsOf_eq, List.range_succ, List.map_append, List.filterMap_append, List.map_singleton, hlast]
  exact List.getLast?_concat

theorem Consecutive.measured {i j : Nat} (h : Consecutive (eventsOf n interval clock) i j)
    (hj : j + 1 < n) : ((clock j).since (clock i)).isBefore interval = false := by
  rcases (passed_iff n interval clock (by omega)).mp h.second with hlast | hmeasured
  · omega
  · rwa [h.lastBefore_eq (lastBefore_stateAt n interval clock (by omega))] at hmeasured

end

/-! ## Clocks that do not go back -/

/-- A clock that does not go back while so many readings are taken. It reads whole seconds, or finite
doubles. -/
structure IsClock (clock : Nat → Seconds) (n : Nat) : Prop where
  oneKind : Seconds.OneKind ((List.range n).map clock)
  finite : ∀ i < n, (clock i).IsReading
  ordered : ∀ i j, i ≤ j → j < n → (clock j).reaches (clock i) = true

def Apart (interval a b : Seconds) : Prop :=
  ∃ x y : ℚ, a.toRat? = some x ∧ b.toRat? = some y ∧ ∀ d, interval.toRat? = some d → d ≤ y - x

section
variable {n : Nat} {interval : Seconds} {clock : Nat → Seconds} (hclock : IsClock clock n)
include hclock

theorem IsClock.value_le {i j : Nat} (hij : i ≤ j) (hj : j < n) {x y : ℚ}
    (hx : (clock i).toRat? = some x) (hy : (clock j).toRat? = some y) : x ≤ y :=
  Seconds.le_of_reaches hx hy (hclock.ordered i j hij hj)

/-- The count of time starts at zero, so the first event is passed on no earlier than the interval is
long, and the others come after it. -/
theorem IsClock.interval_le (hexact : ∀ i < n, (clock i).IsExact) {d : ℚ}
    (hd : interval.toRat? = some d) (hpos : 0 < d) {i : Nat} (hi : i + 1 < n)
    (h : Passed (eventsOf n interval clock) i) {x : ℚ} (hx : (clock i).toRat? = some x) : d ≤ x := by
  induction i using Nat.strong_induction_on generalizing x with
  | _ i ih =>
    have hlast := lastBefore_stateAt n interval clock (i := i) (by omega)
    have hmeasured := ((passed_iff n interval clock (by omega)).mp h).resolve_left (by omega)
    generalize (stateAt n interval clock i).lastEmit = last at hlast hmeasured
    have hexacti := hexact i (by omega)
    cases hlast with
    | start =>
      have hzero : (Seconds.real (.finite false 0 0)).toRat? = some 0 := by
        rw [Seconds.toRat?, Binary64.toRat?_finite]
        simp
      have hexact0 : (Seconds.real (.finite false 0 0)).IsExact := trivial
      have hxpos := Seconds.lt_of_not_isBefore hexact0 hexacti hzero hx hd hpos hmeasured
      have hholds := (hclock.finite i (by omega)).holds hexacti hx hxpos.le
      refine Seconds.le_of_not_isBefore ?_ hd hmeasured
      rw [Seconds.level_since_of_toRat? hexact0 hexacti hzero hx, sub_zero,
        Binary64.level_ofRat_of_holds hholds]
    | @passed k hk hpassed hnone =>
      obtain ⟨y, hy⟩ := (hclock.finite k (by omega)).toRat?
      exact (ih k hk (by omega) hpassed hy).trans (hclock.value_le hk.le (by omega) hy hx)

theorem IsClock.apart {i j : Nat} (h : Consecutive (eventsOf n interval clock) i j) (hj : j + 1 < n) :
    Apart interval (clock i) (clock j) := by
  have hlt := h.lt
  have hmeasured := h.measured n interval clock hj
  obtain ⟨x, hx⟩ := (hclock.finite i (by omega)).toRat?
  obtain ⟨y, hy⟩ := (hclock.finite j (by omega)).toRat?
  refine ⟨x, y, hx, hy, fun d hd => ?_⟩
  rcases hclock.oneKind with hwhole | hexact
  · obtain ⟨k, hk⟩ := hwhole (clock i) (List.mem_map_of_mem (List.mem_range.mpr (by omega)))
    obtain ⟨l, hl⟩ := hwhole (clock j) (List.mem_map_of_mem (List.mem_range.mpr (by omega)))
    rw [hk] at hx hmeasured
    rw [hl] at hy hmeasured
    obtain rfl : (k : ℚ) = x := Option.some.inj hx
    obtain rfl : (l : ℚ) = y := Option.some.inj hy
    refine Seconds.le_of_not_isBefore ?_ hd hmeasured
    rw [Seconds.since, Seconds.level_whole, Int.cast_sub]
  · have hexact' : ∀ k < n, (clock k).IsExact := fun k hk =>
      hexact _ (List.mem_map_of_mem (List.mem_range.mpr hk))
    exact Seconds.le_sub_of_not_isBefore (hexact' i (by omega)) (hexact' j (by omega))
      (hclock.finite i (by omega)) (hclock.finite j (by omega)) hx hy hd
      (fun hpos => hclock.interval_le hexact' hd hpos (by omega) h.first hx)
      (hclock.value_le hlt.le (by omega) hx hy) hmeasured

end

theorem fileEvents_throttled {n : Nat} (hn : 1 ≤ n) (interval : Seconds) (clock : Nat → Seconds) :
    let events := fileEvents { total := n, interval } ((List.range n).map clock)
    (∀ i < n, events[i]? = some none ∨ events[i]? = some (some (counted (i + 1) n))) ∧
    ((events.filterMap id).filterMap Progress.done).Pairwise (· < ·) ∧
    (events.filterMap id).getLast? = some (counted n n) ∧
    (∀ i < n, ∃ last, LastBefore events clock i last ∧
      (Passed events i ↔ i + 1 = n ∨ ((clock i).since last).isBefore interval = false)) ∧
    ∀ i j, Consecutive events i j → j + 1 < n →
      ((clock j).since (clock i)).isBefore interval = false ∧
      (IsClock clock n → Apart interval (clock i) (clock j)) := by
  refine ⟨fun i hi => ?_, counts_increase n interval clock, getLast?_eventsOf n interval clock hn,
    fun i hi => ?_, fun i j h hj => ?_⟩
  · rw [fileEvents_range, List.getElem?_map, List.getElem?_range hi]
    rcases eventAt_cases n interval clock i with ⟨-, -, hevent, -⟩ | ⟨-, hevent, -⟩
    · exact .inl (by rw [Option.map_some, hevent])
    · exact .inr (by rw [Option.map_some, hevent])
  · exact ⟨_, lastBefore_stateAt n interval clock hi.le, passed_iff n interval clock hi⟩
  · exact ⟨Consecutive.measured n interval clock h hj, fun hclock => hclock.apart h hj⟩

def eighths (i : Nat) : Seconds :=
  .real ([.finite false (2 ^ 52) (-55), .finite false (2 ^ 52) (-54), .finite false (3 * 2 ^ 51) (-54),
    .finite false (2 ^ 52) (-53), .finite false (5 * 2 ^ 50) (-53)].getD i
    (.finite false (6 * 2 ^ 50) (-53)))

theorem eighths_isClock : IsClock eighths 6 where
  oneKind := .inr (by simp [eighths, Seconds.IsExact])
  finite := by
    intro i hi
    interval_cases i <;> exact ⟨.inr (by norm_num), _, rfl⟩
  ordered := by
    have hall : ∀ j < 6, ∀ i < j + 1, (eighths j).reaches (eighths i) = true := by decide +kernel
    exact fun i j hij hj => hall j hj i (Nat.lt_succ_of_le hij)

/-- Six files, one each eighth of a second: the events of the second, fourth and last are passed on. -/
theorem fileEvents_of_eighths :
    let interval : Seconds := .real (.ofQuotient false 1 5)
    let events := fileEvents { total := 6, interval } ((List.range 6).map eighths)
    Consecutive events 1 3 ∧ Apart interval (eighths 1) (eighths 3) ∧
    (events.filterMap id).getLast? = some (counted 6 6) := by
  intro interval events
  obtain ⟨-, -, hlast, -, hconsecutive⟩ := fileEvents_throttled (n := 6) (by decide) interval eighths
  have hevents : events = [none, some (counted 2 6), none, some (counted 4 6), none, some (counted 6 6)] := by
    decide +kernel
  have h : Consecutive events 1 3 := by
    rw [hevents]
    refine ⟨by decide, ⟨_, rfl⟩, ⟨_, rfl⟩, ?_⟩
    rintro l hl hl' ⟨e, he⟩
    obtain rfl : l = 2 := by omega
    cases he
  exact ⟨h, (hconsecutive 1 3 h (by decide)).2 eighths_isClock, hlast⟩

end CodeAtlas.Throttle
