import CodeAtlas.Graph.Basic
import CodeAtlas.Json.Basic
import CodeAtlas.Text.Basic
import CodeAtlas.Text.Lower

/-!
# Relationships proposed by a language model

What is taken from the JSON value of a reply. Parts of the wrong shape are left out.
-/

namespace CodeAtlas

structure FileProposal where
  source : String
  target : String
  relationship : String := "uses"
  confidence : Option Confidence := none
deriving DecidableEq, Repr, Inhabited

structure SymbolRef where
  filePath : String
  symbol : String
deriving DecidableEq, Repr, Inhabited

structure FunctionProposal where
  source : SymbolRef
  target : SymbolRef
  relationship : String := "calls"
  confidence : Option Confidence := none
  reason : Option String := none
deriving DecidableEq, Repr, Inhabited

structure Proposals where
  files : List FileProposal := []
  functions : List FunctionProposal := []
  notes : List String := []
deriving DecidableEq, Repr, Inhabited

def Proposals.isEmpty (p : Proposals) : Bool :=
  p.files.isEmpty && p.functions.isEmpty && p.notes.isEmpty

def Json.text? (j : Json) (key : String) : Option String :=
  (j.get? key).bind Json.str?

/-- A level in any letter case, with blanks around it. -/
def Confidence.ofText? (text : String) : Option Confidence :=
  ofName? (Text.lower (Text.strip text))

def Confidence.ofMember? (j : Json) : Option Confidence :=
  (j.text? "confidence").bind ofText?

def FileProposal.ofJson? (j : Json) : Option FileProposal := do
  let source ← j.text? "source"
  let target ← j.text? "target"
  pure { source, target, relationship := (j.text? "relationship").getD "uses"
         confidence := Confidence.ofMember? j }

def SymbolRef.ofJson? (j : Json) : Option SymbolRef := do
  let filePath ← j.text? "filePath"
  let symbol ← j.text? "symbol"
  pure { filePath, symbol }

def FunctionProposal.ofJson? (j : Json) : Option FunctionProposal := do
  let source ← (j.get? "source").bind SymbolRef.ofJson?
  let target ← (j.get? "target").bind SymbolRef.ofJson?
  pure { source, target, relationship := (j.text? "relationship").getD "calls"
         confidence := Confidence.ofMember? j, reason := j.text? "reason" }

def Json.itemsAt (j : Json) (key : String) : List Json :=
  ((j.get? key).bind Json.arr?).getD []

def Proposals.ofJson (j : Json) : Proposals :=
  { files := (j.itemsAt "fileEdges").filterMap FileProposal.ofJson?
    functions := (j.itemsAt "functionEdges").filterMap FunctionProposal.ofJson?
    notes := (j.itemsAt "notes").filterMap Json.str? }

end CodeAtlas
