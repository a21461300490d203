import CodeAtlas.Text.Path

/-!
# Disks in memory

Files and directories by the names on the way to them.
-/

namespace CodeAtlas

structure Disk where
  files : List (List String × ByteArray) := []
  /-- Directories that are there even if nothing is in them. -/
  directories : List (List String) := []

/-- A directory: its own name, and the files below it by the names on the way from there. -/
structure Folder where
  name : String
  files : List (List String × ByteArray)

inductive WriteError where
  | isDirectory
  | noDirectory
  | insideFile
deriving DecidableEq, Repr

namespace Disk

def isFile (d : Disk) (place : List String) : Bool :=
  d.files.any (·.1 == place)

def isDirectory (d : Disk) (place : List String) : Bool :=
  place.isEmpty || d.directories.any (place.isPrefixOf ·)
    || d.files.any fun f => place.isPrefixOf f.1 && place != f.1

def enter (d : Disk) (place : List String) (name : String) : Option (List String) :=
  if !d.isDirectory place then none
  else if name == "" || name == "." then some place
  else if name == ".." then some place.dropLast
  else some (place ++ [name])

/-- Where a path leads; all but its end has to be there. -/
def locate? (d : Disk) (path : String) : Option (List String) :=
  (Path.segments path).foldlM d.enter []

def read? (d : Disk) (path : String) : Option ByteArray :=
  (d.locate? path).bind fun place => d.files.lookup place

def below (d : Disk) (place : List String) : List (List String × ByteArray) :=
  d.files.filterMap fun (names, bytes) =>
    if place.isPrefixOf names && place != names then some (names.drop place.length, bytes) else none

def folder? (d : Disk) (path : String) : Option Folder :=
  (d.locate? path).bind fun place =>
    if !path.isEmpty && d.isDirectory place then some ⟨place.getLast?.getD "", d.below place⟩
    else none

def writeError? (d : Disk) (path : String) : Option WriteError :=
  match d.locate? path with
  | some place =>
    if d.isDirectory place then some .isDirectory
    else if d.isDirectory place.dropLast then none
    else some .noDirectory
  | none =>
    let ends := (Path.segments path).length
    if (List.range ends).any fun n =>
        (((Path.segments path).take n).foldlM d.enter []).any d.isFile
    then some .insideFile else some .noDirectory

def put (d : Disk) (place : List String) (bytes : ByteArray) : Disk :=
  { d with files := d.files.filter (·.1 != place) ++ [(place, bytes)] }

def write (d : Disk) (path : String) (bytes : ByteArray) : Disk :=
  match d.writeError? path, d.locate? path with
  | none, some place => d.put place bytes
  | _, _ => d

end Disk

end CodeAtlas
