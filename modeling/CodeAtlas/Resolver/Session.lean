import CodeAtlas.Resolver.Basic

/-!
# Resolving many specifiers

A session answers one question after the other and remembers what each base path led to, so that no
base path is probed twice.
-/

namespace CodeAtlas.Resolver

structure Session where
  resolver : Resolver
  /-- The file found for a family and a base path. -/
  memo : List ((String × String) × Option String) := []

namespace Session

def probe (s : Session) (family base : String) : Option String × Session :=
  match s.memo.lookup (family, base) with
  | some found => (found, s)
  | none =>
    let found := s.resolver.probe family base
    (found, { s with memo := ((family, base), found) :: s.memo })

def probeAny (s : Session) (family : String) : List String → Option String × Session
  | [] => (none, s)
  | base :: rest =>
    match s.probe family base with
    | (some found, s) => (some found, s)
    | (none, s) => s.probeAny family rest

def resolve (s : Session) (importer specifier : String) : Option String × Session :=
  if specifier.isEmpty then (none, s)
  else s.probeAny (family importer) (bases s.resolver.aliases importer specifier)

def resolveAll (s : Session) : List (String × String) → List (Option String)
  | [] => []
  | (importer, specifier) :: rest =>
    match s.resolve importer specifier with
    | (answer, s) => answer :: s.resolveAll rest

end Session

end CodeAtlas.Resolver
