import CodeAtlas.Seconds

/-!
# A cache of results

Entries live for a time and there is room for so many of them: a new entry drives out the oldest. An
entry that is too old is dropped when it is looked up, or by a sweep. The readings of the clock are
given with each operation.
-/

namespace CodeAtlas

structure CacheEntry (α : Type) where
  key : String
  value : α
  insertedAt : Seconds
deriving DecidableEq, Repr

structure Cache (α : Type) where
  /-- The age at which an entry is too old. -/
  lifetime : Seconds := 900
  capacity : Int := 64
  /-- In the order in which the keys came in. -/
  entries : List (CacheEntry α) := []
deriving Repr

namespace Cache

inductive Fault where
  /-- There is no oldest entry of none. -/
  | noOldest
deriving DecidableEq, Repr

variable {α : Type}

def size (c : Cache α) : Nat :=
  c.entries.length

def isExpired (c : Cache α) (now : Seconds) (e : CacheEntry α) : Bool :=
  (now.since e.insertedAt).reaches c.lifetime

def find? (c : Cache α) (key : String) : Option (CacheEntry α) :=
  c.entries.find? (·.key == key)

def without (entries : List (CacheEntry α)) (key : String) : List (CacheEntry α) :=
  entries.filter (·.key != key)

theorem length_without_lt {entries : List (CacheEntry α)} {e : CacheEntry α} (h : e ∈ entries) :
    (without entries e.key).length < entries.length := by
  rw [without, List.length_filter_lt_length_iff_exists]
  exact ⟨e, h, by simp⟩

def erase (c : Cache α) (key : String) : Cache α :=
  { c with entries := without c.entries key }

/-- Looks up a key; an entry that is too old goes. -/
def get (c : Cache α) (now : Seconds) (key : String) : Option α × Cache α :=
  match c.find? key with
  | none => (none, c)
  | some e => if c.isExpired now e then (none, c.erase key) else (some e.value, c)

/-- Writes an entry; a key that is there keeps its place. -/
def write (entries : List (CacheEntry α)) (e : CacheEntry α) : List (CacheEntry α) :=
  if entries.any (·.key == e.key) then entries.map fun old => if old.key == e.key then e else old
  else entries ++ [e]

/-- The entry that has been in longest, the first of several. -/
def oldest? : List (CacheEntry α) → Option (CacheEntry α)
  | [] => none
  | e :: rest =>
    match oldest? rest with
    | none => some e
    | some other => if other.insertedAt.isBefore e.insertedAt then some other else some e

theorem oldest?_mem {entries : List (CacheEntry α)} {e : CacheEntry α} (h : oldest? entries = some e) :
    e ∈ entries := by
  induction entries generalizing e with
  | nil => simp [oldest?] at h
  | cons x rest ih =>
    rw [oldest?] at h
    cases hrest : oldest? rest with
    | none => simp_all
    | some other =>
      have hother := ih hrest
      rw [hrest] at h
      by_cases hbefore : other.insertedAt.isBefore x.insertedAt = true <;> simp_all

/-- Drops the oldest entry as long as there are too many. No capacity below zero is ever reached. -/
def evict (capacity : Int) (entries : List (CacheEntry α)) :
    Except Fault Unit × List (CacheEntry α) :=
  if entries.length ≤ capacity then (.ok (), entries)
  else
    match _h : oldest? entries with
    | none => (.error .noOldest, entries)
    | some e => evict capacity (without entries e.key)
termination_by entries.length
decreasing_by exact length_without_lt (oldest?_mem _h)

def put (c : Cache α) (now : Seconds) (key : String) (value : α) : Except Fault Unit × Cache α :=
  let evicted := evict c.capacity (write c.entries ⟨key, value, now⟩)
  (evicted.1, { c with entries := evicted.2 })

/-- Drops the entries that are too old and counts them. The clock is read anew for each entry. -/
def sweep (c : Cache α) (clock : Nat → Seconds) : Nat × Cache α :=
  let expired := (c.entries.zipIdx.filter fun e => c.isExpired (clock e.2) e.1).map (·.1.key)
  (expired.length, expired.foldl erase c)

def clear (c : Cache α) : Cache α :=
  { c with entries := [] }

end Cache

end CodeAtlas
