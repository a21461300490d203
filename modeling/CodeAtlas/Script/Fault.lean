/-!
# Reporting a syntax error

A parsed text with faults is given as an outline: labelled nodes, of which some are damaged, some
stand for text that is missing, and some have either below them. The report names the first fault.
-/

namespace CodeAtlas.Script

inductive Outline where
  | node (label : String) (missing : Bool) (faulty : Bool) (row column : Int)
      (children : List Outline)
deriving Inhabited

namespace Outline

/-- The label of a node that holds text which fits nowhere. -/
def damaged : String := "ERROR"

def fault? : Outline → Option String
  | node label missing _ row column _ =>
    if missing || label == damaged then
      let what := if missing then "missing " ++ label else "unexpected token"
      some s!"syntax error ({what}) at line {row + 1}, column {column + 1}"
    else none

mutual

/-- The first fault, parents before children; only nodes with faults below them are entered. -/
def firstFault? : Outline → Option String
  | node label missing faulty row column children =>
    match fault? (node label missing faulty row column []) with
    | some report => some report
    | none => if faulty then firstFaultIn? children else none

def firstFaultIn? : List Outline → Option String
  | [] => none
  | t :: ts =>
    match firstFault? t with
    | some report => some report
    | none => firstFaultIn? ts

end

def report (t : Outline) : String :=
  t.firstFault?.getD "syntax error"

/-- A text with faults of which none is named. -/
def unnamed : Outline :=
  node "program" false true 0 0 []

end Outline

end CodeAtlas.Script
