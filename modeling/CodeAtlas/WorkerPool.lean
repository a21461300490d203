/-!
# Workers that share a list of tasks

Each worker takes the next index from a shared counter, carries out the task, puts the outcome into
the slot of that index and goes on, until the counter is past the list. A schedule says which worker
moves next; taking an index, carrying out a task, filling a slot and leaving are one move each.
-/

namespace CodeAtlas

inductive Work (β : Type) where
  | free
  | took (index : Nat)
  | made (index : Nat) (outcome : β)
  | left
deriving Repr

structure WorkerPool (β : Type) where
  /-- The counter that the workers share. -/
  next : Nat := 0
  workers : List (Work β)
  slots : List (Option β)
  /-- The indices of the tasks that were carried out, the latest first. -/
  carriedOut : List Nat := []
deriving Repr

namespace WorkerPool

variable {α β : Type}

/-- At least one worker, and no more than there are tasks. -/
def workerCount (concurrency : Int) (tasks : Nat) : Nat :=
  (max 1 (min concurrency tasks)).toNat

def start (concurrency : Int) (tasks : List α) : WorkerPool β :=
  { workers := List.replicate (workerCount concurrency tasks.length) .free
    slots := List.replicate tasks.length none }

/-- One move of a worker; one that has left, or is none of the pool's, does nothing. -/
def step (carryOut : α → β) (tasks : List α) (p : WorkerPool β) (worker : Nat) : WorkerPool β :=
  match p.workers[worker]? with
  | none => p
  | some .left => p
  | some .free => { p with next := p.next + 1, workers := p.workers.set worker (.took p.next) }
  | some (.took index) =>
    match tasks[index]? with
    | none => { p with workers := p.workers.set worker .left }
    | some task =>
      { p with
        workers := p.workers.set worker (.made index (carryOut task))
        carriedOut := index :: p.carriedOut }
  | some (.made index outcome) =>
    { p with workers := p.workers.set worker .free, slots := p.slots.set index (some outcome) }

def run (carryOut : α → β) (tasks : List α) (p : WorkerPool β) (schedule : List Nat) :
    WorkerPool β :=
  schedule.foldl (step carryOut tasks) p

def hasLeft : Work β → Bool
  | .left => true
  | _ => false

def isFinished (p : WorkerPool β) : Bool :=
  p.workers.all hasLeft

end WorkerPool

end CodeAtlas
