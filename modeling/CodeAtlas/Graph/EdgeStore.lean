import CodeAtlas.Graph.Basic

/-!
# Edge stores

Edges in the order of their first writes, one for each key. The first write to a key settles the
edge; later ones only supply a confidence or a reason that is still missing.
-/

namespace CodeAtlas

structure EdgeStore where
  edges : List Edge := []
deriving DecidableEq, Repr, Inhabited

/-- Fills in what the edge does not have; an empty reason is none. -/
def Edge.fill (old new : Edge) : Edge :=
  { old with
    confidence := old.confidence.or new.confidence
    reason := old.reason.or (new.reason.filter (!·.isEmpty)) }

namespace EdgeStore

def find? (s : EdgeStore) (key : String) : Option Edge :=
  s.edges.find? (·.key == key)

def get? (s : EdgeStore) (source target : String) : Option Edge :=
  s.find? (edgeKey source target)

def contains (s : EdgeStore) (key : String) : Bool :=
  (s.find? key).isSome

def size (s : EdgeStore) : Nat :=
  s.edges.length

def upsert (s : EdgeStore) (e : Edge) : EdgeStore :=
  if s.contains e.key then ⟨s.edges.map fun old => if old.key == e.key then old.fill e else old⟩
  else ⟨s.edges ++ [e]⟩

def creates (s : EdgeStore) (e : Edge) : Bool :=
  !s.contains e.key

def upsertAll (s : EdgeStore) (es : List Edge) : EdgeStore :=
  es.foldl upsert s

end EdgeStore

end CodeAtlas
