import CodeAtlas.Seconds

/-!
# Reporting progress

Of the events "so many files are done" only those are passed on that come late enough after the last
one, and always the one for all files.
-/

namespace CodeAtlas

structure Progress where
  message : String
  done : Option Int := none
  total : Option Int := none
deriving DecidableEq, Repr, Inhabited

structure Throttle where
  total : Int
  /-- The least time between two events; a fifth of a second, as near as a double is to it. -/
  interval : Seconds := .real (.ofQuotient false 1 5)
  done : Int := 0
  lastEmit : Seconds := .real (.finite false 0 0)
deriving Repr

namespace Throttle

def counted (done total : Int) : Progress :=
  ⟨s!"{done}/{total} files analyzed", some done, some total⟩

def fileDone (t : Throttle) (now : Seconds) : Throttle × Option Progress :=
  let done := t.done + 1
  if done ≠ t.total ∧ (now.since t.lastEmit).isBefore t.interval then ({ t with done }, none)
  else ({ t with done, lastEmit := now }, some (counted done t.total))

def fileEvents (t : Throttle) : List Seconds → List (Option Progress)
  | [] => []
  | now :: rest =>
    let (t, event) := t.fileDone now
    event :: t.fileEvents rest

end Throttle

end CodeAtlas
