/-!
# Path aliases

An alias stands for directories: specifiers that match it are looked up there.
-/

namespace CodeAtlas

structure Alias where
  /-- What the specifier starts with. -/
  lead : String
  /-- What it ends with. -/
  trail : String
  targets : List String
  /-- Without a wildcard the specifier is the lead itself. -/
  wildcard : Bool := true
deriving DecidableEq, Repr, Inhabited

/-- What the wildcard stands for in a specifier that matches. -/
def Alias.remainder? (a : Alias) (specifier : String) : Option String :=
  if a.wildcard then
    let cs := specifier.toList
    let lead := a.lead.toList
    let trail := a.trail.toList
    if lead.isPrefixOf cs && trail.isSuffixOf cs && lead.length + trail.length ≤ cs.length then
      some (String.ofList ((cs.take (cs.length - trail.length)).drop lead.length))
    else none
  else if specifier == a.lead then some "" else none

end CodeAtlas
