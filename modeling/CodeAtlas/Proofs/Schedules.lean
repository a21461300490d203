import CodeAtlas.Analyze
import CodeAtlas.WorkerPool
import Mathlib.Tactic.ByContra

/-!
# Workers under every schedule

`Move` lists what one worker can do, and `Sound` what no move of any worker breaks: each index that was
handed out is held by one worker or fills its slot. When all have left, the slots hold what reading
the files one after the other gives (`readings_of_schedule`). No schedule can keep them from that: there
is always a way to go on that ends (`exists_finishing`).
-/

namespace CodeAtlas.WorkerPool

/-! ## Moves -/

section
variable {α β : Type} (carryOut : α → β) (tasks : List α)

inductive Move (p : WorkerPool β) (worker : Nat) : WorkerPool β → Prop
  | rest (h : ∀ w, p.workers[worker]? = some w → w = .left) : Move p worker p
  | take (h : p.workers[worker]? = some .free) :
      Move p worker { p with next := p.next + 1, workers := p.workers.set worker (.took p.next) }
  | leave {i : Nat} (h : p.workers[worker]? = some (.took i)) (hi : tasks.length ≤ i) :
      Move p worker { p with workers := p.workers.set worker .left }
  | carry {i : Nat} {t : α} (h : p.workers[worker]? = some (.took i)) (ht : tasks[i]? = some t) :
      Move p worker { p with workers := p.workers.set worker (.made i (carryOut t))
                             carriedOut := i :: p.carriedOut }
  | fill {i : Nat} {o : β} (h : p.workers[worker]? = some (.made i o)) :
      Move p worker { p with workers := p.workers.set worker .free
                             slots := p.slots.set i (some o) }

theorem step_move (p : WorkerPool β) (worker : Nat) :
    Move carryOut tasks p worker (step carryOut tasks p worker) := by
  unfold step
  split
  · rename_i h
    exact .rest fun w hw => by rw [h] at hw; cases hw
  · rename_i h
    exact .rest fun w hw => by rw [h] at hw; exact (Option.some.inj hw).symm
  · rename_i h
    exact .take h
  · rename_i i h
    split
    · rename_i hi
      exact .leave h (List.getElem?_eq_none_iff.mp hi)
    · rename_i t ht
      exact .carry h ht
  · rename_i h
    exact .fill h

end

/-! ## Counting -/

variable {α β : Type} {carryOut : α → β} {tasks : List α}

def total (f : Work β → Nat) : List (Work β) → Nat
  | [] => 0
  | w :: ws => f w + total f ws

theorem total_set (f : Work β → Nat) {x : Work β} (y : Work β) : ∀ {workers : List (Work β)} {k : Nat},
    workers[k]? = some x → total f (workers.set k y) + f x = total f workers + f y
  | [], _, h => by simp at h
  | w :: ws, 0, h => by
    cases Option.some.inj h
    simp only [List.set_cons_zero, total]
    omega
  | w :: ws, k + 1, h => by
    have ih : total f (ws.set k y) + f x = total f ws + f y := total_set f y h
    simp only [List.set_cons_succ, total]
    omega

theorem total_eq_zero {f : Work β → Nat} {workers : List (Work β)} (h : ∀ w ∈ workers, f w = 0) :
    total f workers = 0 := by
  induction workers with
  | nil => rfl
  | cons w ws ih =>
    rw [total, h w List.mem_cons_self, ih fun v hv => h v (List.mem_cons_of_mem w hv)]

def holding (i : Nat) : Work β → Nat
  | .took j | .made j _ => if j = i then 1 else 0
  | _ => 0

def making (i : Nat) : Work β → Nat
  | .made j _ => if j = i then 1 else 0
  | _ => 0

def filled (slots : List (Option β)) (i : Nat) : Nat :=
  if slots[i]?.join.isSome then 1 else 0

theorem filled_of_le {slots : List (Option β)} {i : Nat} (h : slots.length ≤ i) : filled slots i = 0 := by
  simp [filled, List.getElem?_eq_none h]

theorem filled_set {slots : List (Option β)} {i : Nat} (o : β) (h : i < slots.length) (j : Nat) :
    filled (slots.set i (some o)) j = if i = j then 1 else filled slots j := by
  unfold filled
  rw [List.getElem?_set]
  by_cases hij : i = j
  · simp [hij, hij ▸ h]
  · simp [hij]

/-! ## What no move breaks -/

def Fits (carryOut : α → β) (tasks : List α) (next : Nat) : Work β → Prop
  | .free => True
  | .took i => i < next
  | .made i o => i < next ∧ tasks[i]?.map carryOut = some o
  | .left => tasks.length < next

theorem Fits.succ {next : Nat} {w : Work β} (h : Fits carryOut tasks next w) :
    Fits carryOut tasks (next + 1) w := by
  cases w with
  | free => trivial
  | took i => exact Nat.lt_succ_of_lt h
  | made i o => exact ⟨Nat.lt_succ_of_lt h.1, h.2⟩
  | left => exact Nat.lt_succ_of_lt h

theorem forall_mem_set {P : Work β → Prop} {workers : List (Work β)} (h : ∀ w ∈ workers, P w) (k : Nat)
    {y : Work β} (hy : P y) : ∀ w ∈ workers.set k y, P w := by
  intro w hw
  rcases List.mem_or_eq_of_mem_set hw with hw | rfl
  · exact h w hw
  · exact hy

structure Sound (carryOut : α → β) (tasks : List α) (p : WorkerPool β) : Prop where
  crew : 0 < p.workers.length
  size : p.slots.length = tasks.length
  fits : ∀ w ∈ p.workers, Fits carryOut tasks p.next w
  slots : ∀ (i : Nat) (o : β), p.slots[i]? = some (some o) → tasks[i]?.map carryOut = some o
  once : ∀ i < tasks.length,
    total (holding i) p.workers + filled p.slots i = if i < p.next then 1 else 0
  log : ∀ i, p.carriedOut.count i = total (making i) p.workers + filled p.slots i

theorem start_sound (carryOut : α → β) (tasks : List α) (concurrency : Int) :
    Sound carryOut tasks (start concurrency tasks) := by
  have hfree : ∀ w ∈ (start (β := β) concurrency tasks).workers, w = .free :=
    fun w hw => List.eq_of_mem_replicate hw
  have hempty : ∀ i, filled (start (β := β) concurrency tasks).slots i = 0 := by
    intro i
    simp only [start, filled, List.getElem?_replicate]
    split <;> rfl
  refine ⟨?_, List.length_replicate, fun w hw => by rw [hfree w hw]; trivial, ?_, ?_, ?_⟩
  · simp only [start, List.length_replicate, workerCount]
    omega
  · intro i o h
    simp [start, List.getElem?_replicate] at h
  · intro i _
    rw [hempty, total_eq_zero fun w hw => by rw [hfree w hw]; rfl]
    rfl
  · intro i
    rw [hempty, total_eq_zero fun w hw => by rw [hfree w hw]; rfl]
    rfl

section
variable {p : WorkerPool β} {worker : Nat} (h : Sound carryOut tasks p)
include h

theorem Sound.take (hfree : p.workers[worker]? = some .free) : Sound carryOut tasks
    { p with next := p.next + 1, workers := p.workers.set worker (.took p.next) } where
  crew := by rw [List.length_set]; exact h.crew
  size := h.size
  fits := forall_mem_set (fun w hw => (h.fits w hw).succ) worker (Nat.lt_succ_self p.next)
  slots := h.slots
  once := by
    intro i hi
    have hcount := total_set (holding i) (.took p.next) hfree
    have honce := h.once i hi
    simp only [holding] at hcount
    dsimp only
    split at hcount <;> split at honce <;> split <;> omega
  log := by
    intro i
    have hcount := total_set (making i) (.took p.next) hfree
    have hlog := h.log i
    simp only [making] at hcount
    dsimp only
    omega

theorem Sound.leave {i : Nat} (htook : p.workers[worker]? = some (.took i)) (hi : tasks.length ≤ i) :
    Sound carryOut tasks { p with workers := p.workers.set worker .left } where
  crew := by rw [List.length_set]; exact h.crew
  size := h.size
  fits := by
    have hlt : i < p.next := h.fits _ (List.mem_of_getElem? htook)
    exact forall_mem_set h.fits worker (Nat.lt_of_le_of_lt hi hlt)
  slots := h.slots
  once := by
    intro j hj
    have hcount := total_set (holding j) .left htook
    have honce := h.once j hj
    simp only [holding, if_neg (show i ≠ j by omega)] at hcount
    dsimp only
    omega
  log := by
    intro j
    have hcount := total_set (making j) .left htook
    have hlog := h.log j
    simp only [making] at hcount
    dsimp only
    omega

theorem Sound.carry {i : Nat} {t : α} (htook : p.workers[worker]? = some (.took i))
    (ht : tasks[i]? = some t) : Sound carryOut tasks
      { p with workers := p.workers.set worker (.made i (carryOut t)), carriedOut := i :: p.carriedOut } where
  crew := by rw [List.length_set]; exact h.crew
  size := h.size
  fits := forall_mem_set h.fits worker
    ⟨h.fits _ (List.mem_of_getElem? htook), by rw [ht, Option.map_some]⟩
  slots := h.slots
  once := by
    intro j hj
    have hcount := total_set (holding j) (.made i (carryOut t)) htook
    have honce := h.once j hj
    simp only [holding] at hcount
    dsimp only
    omega
  log := by
    intro j
    have hcount := total_set (making j) (.made i (carryOut t)) htook
    have hlog := h.log j
    simp only [making] at hcount
    dsimp only
    rw [List.count_cons]
    by_cases hij : i = j
    · rw [if_pos hij] at hcount
      rw [if_pos (by simpa using hij)]
      omega
    · rw [if_neg hij] at hcount
      rw [if_neg (by simpa using hij)]
      omega

theorem Sound.fill {i : Nat} {o : β} (hmade : p.workers[worker]? = some (.made i o)) :
    Sound carryOut tasks
      { p with workers := p.workers.set worker .free, slots := p.slots.set i (some o) } := by
  obtain ⟨hnext, htask⟩ : Fits carryOut tasks p.next (.made i o) :=
    h.fits _ (List.mem_of_getElem? hmade)
  have hlt : i < tasks.length := by
    obtain ⟨t, ht, -⟩ := Option.map_eq_some_iff.mp htask
    exact (List.getElem?_eq_some_iff.mp ht).1
  have hslot : i < p.slots.length := by rw [h.size]; exact hlt
  -- The worker still holds the index, so by `once` nothing has filled its slot.
  have hempty : filled p.slots i = 0 := by
    have hcount := total_set (holding i) .free hmade
    have honce := h.once i hlt
    simp only [holding, if_true] at hcount
    rw [if_pos hnext] at honce
    omega
  have hfilled := filled_set o hslot
  refine ⟨by rw [List.length_set]; exact h.crew, by rw [List.length_set]; exact h.size,
    forall_mem_set h.fits worker trivial, ?_, ?_, ?_⟩
  · intro j o' ho
    rw [List.getElem?_set, if_pos hslot] at ho
    by_cases hij : i = j
    · rw [if_pos hij, Option.some.injEq, Option.some.injEq] at ho
      rw [← hij, ← ho]
      exact htask
    · rw [if_neg hij] at ho
      exact h.slots j o' ho
  · intro j hj
    have hcount := total_set (holding j) .free hmade
    have honce := h.once j hj
    simp only [holding] at hcount
    dsimp only
    rw [hfilled j]
    by_cases hij : i = j
    · rw [hij] at hempty
      rw [if_pos hij] at hcount ⊢
      omega
    · rw [if_neg hij] at hcount ⊢
      omega
  · intro j
    have hcount := total_set (making j) .free hmade
    have hlog := h.log j
    simp only [making] at hcount
    dsimp only
    rw [hfilled j]
    by_cases hij : i = j
    · rw [hij] at hempty
      rw [if_pos hij] at hcount ⊢
      omega
    · rw [if_neg hij] at hcount ⊢
      omega

theorem Sound.step (worker : Nat) : Sound carryOut tasks (step carryOut tasks p worker) := by
  have hmove := step_move carryOut tasks p worker
  generalize WorkerPool.step carryOut tasks p worker = p' at hmove
  cases hmove with
  | rest => exact h
  | take hfree => exact h.take hfree
  | leave htook hi => exact h.leave htook hi
  | carry htook ht => exact h.carry htook ht
  | fill hmade => exact h.fill hmade

end

theorem Sound.run (schedule : List Nat) : ∀ {p : WorkerPool β}, Sound carryOut tasks p →
    Sound carryOut tasks (run carryOut tasks p schedule) := by
  induction schedule with
  | nil => intro p h; exact h
  | cons worker schedule ih => intro p h; exact ih (h.step worker)

/-! ## When all have left -/

theorem Sound.notMem_outside {p : WorkerPool β} (h : Sound carryOut tasks p) {i : Nat}
    (hi : tasks.length ≤ i) : i ∉ p.carriedOut ∧ ∀ o, Work.made i o ∉ p.workers := by
  have hmade : ∀ o, Work.made i o ∉ p.workers := by
    intro o ho
    have htask : tasks[i]?.map carryOut = some o := (h.fits _ ho).2
    rw [List.getElem?_eq_none hi] at htask
    cases htask
  have hnone : total (making i) p.workers = 0 := by
    refine total_eq_zero fun w hw => ?_
    cases w with
    | made j o =>
      refine if_neg ?_
      rintro rfl
      exact hmade o hw
    | _ => rfl
  refine ⟨?_, hmade⟩
  rw [← List.count_eq_zero, h.log i, hnone, filled_of_le (by rw [h.size]; exact hi)]

theorem isFinished_iff {p : WorkerPool β} : p.isFinished = true ↔ ∀ w ∈ p.workers, w = .left := by
  unfold isFinished
  rw [List.all_eq_true]
  constructor
  · intro h w hw
    have := h w hw
    cases w with
    | left => rfl
    | _ => cases this
  · intro h w hw
    rw [h w hw]
    rfl

theorem Sound.of_finished {p : WorkerPool β} (h : Sound carryOut tasks p) (hdone : p.isFinished = true) :
    p.slots = tasks.map (fun t => some (carryOut t)) ∧ ∀ i < tasks.length, p.carriedOut.count i = 1 := by
  have hleft := isFinished_iff.mp hdone
  -- There is a worker, and it has left only because the counter was past the list.
  have hnext : tasks.length < p.next := by
    obtain ⟨w, hw⟩ := List.exists_mem_of_length_pos h.crew
    have hfits := h.fits w hw
    rw [hleft w hw] at hfits
    exact hfits
  have hfilled : ∀ i < tasks.length, filled p.slots i = 1 := by
    intro i hi
    have honce := h.once i hi
    rwa [total_eq_zero fun w hw => by rw [hleft w hw]; rfl, Nat.zero_add,
      if_pos (by omega)] at honce
  constructor
  · refine List.ext_getElem? fun i => ?_
    rw [List.getElem?_map]
    by_cases hi : i < tasks.length
    · have hsome := hfilled i hi
      unfold filled at hsome
      split at hsome
      · rename_i hjoin
        obtain ⟨o, ho⟩ := Option.isSome_iff_exists.mp hjoin
        have hslot := Option.join_eq_some_iff.mp ho
        obtain ⟨t, ht, rfl⟩ := Option.map_eq_some_iff.mp (h.slots i o hslot)
        rw [hslot, ht, Option.map_some]
      · cases hsome
    · rw [List.getElem?_eq_none (by rw [h.size]; omega), List.getElem?_eq_none (by omega), Option.map_none]
  · intro i hi
    rw [h.log i, hfilled i hi, total_eq_zero fun w hw => by rw [hleft w hw]; rfl]

/-! ## Going on to the end -/

/-- How many moves a worker is good for before it leaves, if no index is left to take. -/
def movesLeft (tasks : List α) : Work β → Nat
  | .free => 2
  | .took i => if i < tasks.length then 4 else 1
  | .made _ _ => 3
  | .left => 0

/-- Each index in the list that nobody has taken is good for three more. -/
def effort (tasks : List α) (p : WorkerPool β) : Nat :=
  total (movesLeft tasks) p.workers + 3 * (tasks.length - p.next)

theorem effort_step_lt {p : WorkerPool β} {worker : Nat} {w : Work β}
    (hw : p.workers[worker]? = some w) (hleft : w ≠ .left) :
    effort tasks (step carryOut tasks p worker) < effort tasks p := by
  have hmove := step_move carryOut tasks p worker
  generalize step carryOut tasks p worker = p' at hmove
  unfold effort
  cases hmove with
  | rest h => exact absurd (h w hw) hleft
  | take h =>
    have hcount := total_set (movesLeft tasks) (.took p.next) h
    simp only [movesLeft] at hcount ⊢
    split at hcount <;> omega
  | leave h hi =>
    have hcount := total_set (movesLeft tasks) .left h
    simp only [movesLeft, if_neg (Nat.not_lt.mpr hi)] at hcount ⊢
    omega
  | @carry i t h ht =>
    have hcount := total_set (movesLeft tasks) (.made i (carryOut t)) h
    simp only [movesLeft, if_pos (List.getElem?_eq_some_iff.mp ht).1] at hcount ⊢
    omega
  | fill h =>
    have hcount := total_set (movesLeft tasks) .free h
    simp only [movesLeft] at hcount ⊢
    omega

theorem exists_finishing (p : WorkerPool β) :
    ∃ schedule, (run carryOut tasks p schedule).isFinished = true := by
  induction hn : effort tasks p using Nat.strongRecOn generalizing p with
  | _ n ih =>
    by_cases hdone : p.isFinished = true
    · exact ⟨[], hdone⟩
    · have hbusy : ∃ w ∈ p.workers, w ≠ .left := by
        by_contra hnone
        refine hdone (isFinished_iff.mpr fun w hw => ?_)
        by_contra hleft
        exact hnone ⟨w, hw, hleft⟩
      obtain ⟨w, hw, hleft⟩ := hbusy
      obtain ⟨worker, hworker⟩ := List.getElem?_of_mem hw
      have hlt : effort tasks (step carryOut tasks p worker) < n := hn ▸ effort_step_lt hworker hleft
      obtain ⟨schedule, hfinished⟩ := ih _ hlt _ rfl
      exact ⟨worker :: schedule, hfinished⟩

/-! ## Reading files -/

/-- Whatever the schedule, no index outside of the list is read or written to, and the workers can go on
until all have left. Then each file was read once, and the slots hold what the files give one after the
other. -/
theorem readings_of_schedule (p : AnalysisPlan) (targets : FileMap) (concurrency : Int)
    (schedule : List Nat) :
    let read := fun f : String × String => p.catalog.read f.1 f.2
    let pool := run read targets (start concurrency targets) schedule
    (∃ more, (run read targets pool more).isFinished = true) ∧
      (∀ i, targets.length ≤ i → i ∉ pool.carriedOut ∧ ∀ o, Work.made i o ∉ pool.workers) ∧
      (pool.isFinished = true →
        pool.slots = (p.readings targets).map (fun x => some x.2) ∧
          ∀ i < targets.length, pool.carriedOut.count i = 1) := by
  intro read pool
  have hsound : Sound read targets pool := (start_sound read targets concurrency).run schedule
  refine ⟨exists_finishing pool, fun i hi => hsound.notMem_outside hi, fun hdone => ?_⟩
  obtain ⟨hslots, honce⟩ := hsound.of_finished hdone
  refine ⟨?_, honce⟩
  rw [hslots]
  simp only [AnalysisPlan.readings, List.map_map, Function.comp_def, read]

/-- Two workers, one of which is behind with its first file until the other has read the rest. -/
theorem readings_of_late_worker :
    let p : AnalysisPlan := { model := .direct fun _ => .ok .null }
    let targets : FileMap := [("a.ts", "f();\n"), ("b.md", ""), ("c.py", "import a\n")]
    let read := fun f : String × String => p.catalog.read f.1 f.2
    let pool := run read targets (start 2 targets) [0, 1, 1, 1, 1, 1, 1, 0, 0, 1, 1, 0, 0, 1, 0]
    pool.isFinished = true ∧ pool.slots = (p.readings targets).map (fun x => some x.2) ∧
      ∀ i < 3, pool.carriedOut.count i = 1 := by
  intro p targets read pool
  have hdone : pool.isFinished = true := by decide +kernel
  exact ⟨hdone, (readings_of_schedule p targets 2 _).2.2 hdone⟩

end CodeAtlas.WorkerPool
