import CodeAtlas.Alias.Mapping
import CodeAtlas.Catalog
import CodeAtlas.Disk
import CodeAtlas.FileMap
import CodeAtlas.Text.Basic

/-!
# Scanning a directory

Which files below a directory are read into memory. Files of known languages and those that declare
aliases are read; of assets only the paths are kept, so that imports of them can be resolved.
-/

namespace CodeAtlas

structure ScanOptions where
  /-- Whether files of any kind are read. -/
  everything : Bool := false
  maxBytes : Int := 1200000
deriving Repr, Inhabited

inductive ScanError where
  | notADirectory (path : String)
deriving DecidableEq, Repr

def ScanError.message : ScanError → String
  | notADirectory path => path

namespace Scan

def skippedDirectories : List String :=
  [".git", ".hg", ".svn", "node_modules", ".next", ".nuxt", ".turbo", ".venv", "venv", "__pycache__",
   "site-packages", ".tox", ".pytest_cache", ".mypy_cache", ".ruff_cache", "build", "dist", "out",
   "coverage", "htmlcov", ".eggs", "vendor", "target", ".gradle", ".idea", ".repograph"]

def assetExtensions : List String :=
  [".json", ".css", ".scss", ".sass", ".less", ".svg", ".png", ".jpg", ".gif", ".wasm"]

/-- From the last dot of a name on, unless the name starts or ends there. -/
def nameExtension (name : String) : String :=
  let cs := name.toList
  let tail := (cs.reverse.takeWhile (· != '.')).reverse
  if tail.isEmpty || cs.length ≤ tail.length + 1 then "" else String.ofList ('.' :: tail)

inductive Part where
  | nothing
  | path
  | text
deriving DecidableEq, Repr

def partOf (o : ScanOptions) (place : List String) : Part :=
  let path := Path.ofSegments place
  if place.dropLast.any skippedDirectories.contains then .nothing
  else if o.everything || Alias.mappingFiles.contains path || (Catalog.builtin.detect path).supported
  then .text
  else if assetExtensions.contains (Text.lower (nameExtension (place.getLast?.getD ""))) then .path
  else .nothing

def textOf? (o : ScanOptions) (bytes : ByteArray) : Option String :=
  if o.maxBytes < bytes.size then none
  else (String.fromUTF8? bytes).map Text.unifyNewlines

def entryOf? (o : ScanOptions) (file : List String × ByteArray) : Option (String × String) :=
  let path := Path.ofSegments file.1
  match partOf o file.1 with
  | .nothing => none
  | .path => some (path, "")
  | .text => (textOf? o file.2).map ((path, ·))

/-- Whether a place comes before another, or is the same: a directory before what is in it, and
names side by side in their own order. -/
def precedes : List String → List String → Bool
  | [], _ => true
  | _ :: _, [] => false
  | a :: as, b :: bs => if a == b then precedes as bs else decide (a < b)

def fileMap (o : ScanOptions) (files : List (List String × ByteArray)) : FileMap :=
  (files.mergeSort fun a b => precedes a.1 b.1).filterMap (entryOf? o)

def load (o : ScanOptions) (disk : Disk) (path : String) : Except ScanError FileMap :=
  match disk.folder? path with
  | some folder => .ok (fileMap o folder.files)
  | none => .error (.notADirectory (Path.normal path))

end Scan

end CodeAtlas
