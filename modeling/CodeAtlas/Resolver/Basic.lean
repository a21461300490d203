import CodeAtlas.Alias.Basic
import CodeAtlas.Text.Lower
import CodeAtlas.Text.Path

/-!
# From specifiers to files

A specifier stands for a few base paths: one for a relative specifier, else one for each target of a
matching alias, the root of the repository and its source directory. A base path stands for the
files named by it, by it with an extension, or by an index file inside it. The first known file wins.
-/

namespace CodeAtlas

structure Resolver where
  known : List String
  aliases : List Alias := []

namespace Resolver

def sourceExtensions : List String :=
  [".ts", ".tsx", ".js", ".jsx", ".mjs", ".cjs", ".json"]

def indexFiles : List String :=
  sourceExtensions.map ("index" ++ ·)

/-- The file that stands for a package, in languages that have one. -/
def packageFiles (family : String) : List String :=
  if family == ".py" then ["__init__.py"] else if family == ".rs" then ["mod.rs"] else []

def sourceRoot : String := "src"

def family (importer : String) : String :=
  Text.lower (Path.extension importer)

/-- A family of its own is tried before the source extensions. -/
def extensionsFor (family : String) : List String :=
  if family.isEmpty || sourceExtensions.contains family then sourceExtensions
  else family :: sourceExtensions

def indexFilesFor (family : String) : List String :=
  if family.isEmpty || sourceExtensions.contains family then indexFiles
  else packageFiles family ++ indexFiles

def candidates (base family : String) : List String :=
  if base == "" || base == "." then indexFilesFor family
  else base :: ((extensionsFor family).map (base ++ ·)
    ++ (indexFilesFor family).map fun name => base ++ "/" ++ name)

def bases (aliases : List Alias) (importer specifier : String) : List String :=
  if specifier.startsWith "." then
    [Path.canonical (Path.join (Path.dirname importer) specifier)]
  else
    (aliases.flatMap fun a => match a.remainder? specifier with
      | some rest => a.targets.map fun target => Path.canonical (Path.join target rest)
      | none => [])
    ++ [Path.canonical (Path.dropLeadingSlashes specifier),
        Path.canonical (Path.join sourceRoot (Path.dropLeadingSlashes specifier))]

def probe (r : Resolver) (family base : String) : Option String :=
  (candidates base family).find? r.known.contains

def resolve (r : Resolver) (importer specifier : String) : Option String :=
  if specifier.isEmpty then none
  else (bases r.aliases importer specifier).findSome? (r.probe (family importer))

end Resolver

end CodeAtlas
