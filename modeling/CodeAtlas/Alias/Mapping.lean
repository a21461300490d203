import CodeAtlas.Alias.Basic
import CodeAtlas.Json.Comments
import CodeAtlas.Json.Literal
import CodeAtlas.Json.Reader
import CodeAtlas.Text.Path

/-!
# Path mappings of a project

Aliases as the configuration of a project declares them: each key with at most one star that counts,
each with a list of targets, seen from the base directory.
-/

namespace CodeAtlas.Alias

inductive MappingError where
  /-- A value stands where a table has to be. -/
  | notATable
  | tooDeep
  | tooLong
deriving DecidableEq, Repr

def splitStar (s : String) : Option (String × String) :=
  match s.toList.span (· != '*') with
  | (lead, _ :: trail) => some (String.ofList lead, String.ofList trail)
  | _ => none

/-- Where a target lies: its part before the star, inside the base directory. -/
def targetPath (base target : String) : String :=
  let t := ((splitStar target).map (·.1)).getD target
  let t := if t.startsWith "./" then String.ofList (t.toList.drop 2) else t
  Path.canonical (Path.join base (Path.dropLeadingSlashes t))

def ofMember? (base : String) (key : String) (value : Json) : Option Alias :=
  match ((value.arr?.getD []).filterMap Json.str?).map (targetPath base) with
  | [] => none
  | targets =>
    match splitStar key with
    | some (lead, trail) => some { lead, trail, targets }
    | none => some { lead := key, trail := "", targets, wildcard := false }

def ofConfig (config : Json) (directory : String) : Except MappingError (List Alias) :=
  match config with
  | .obj members =>
    match Json.present? (Json.lookup members "compilerOptions") with
    | none => .ok []
    | some (.obj options) =>
      match Json.lookup options "paths" with
      | some (.obj paths) =>
        let url := ((Json.present? (Json.lookup options "baseUrl")).map Json.display).getD "."
        let base := Path.canonical (Path.join directory (Path.dropLeadingSlashes url))
        .ok (paths.filterMap fun (key, value) => ofMember? base key value)
      | _ => .ok []
    | some _ => .error .notATable
  | _ => .error .notATable

/-- The files that may declare aliases, the first one with any wins. -/
def mappingFiles : List String := ["tsconfig.json", "jsconfig.json"]

/-- The aliases of one document; a text that is no JSON object declares none. -/
def ofDocument (text : String) : Except MappingError (List Alias) :=
  match Json.read (Json.stripComments text) with
  | .ok (.obj members) => ofConfig (.obj members) ""
  | .ok _ => .ok []
  | .error .malformed => .ok []
  | .error .tooDeep => .error .tooDeep
  | .error .tooLong => .error .tooLong

def firstDeclared (files : List (String × String)) :
    List String → Except MappingError (List Alias)
  | [] => .ok []
  | name :: names =>
    match files.lookup name with
    | none => firstDeclared files names
    | some text =>
      match ofDocument text with
      | .error e => .error e
      | .ok [] => firstDeclared files names
      | .ok aliases => .ok aliases

def ofFiles (files : List (String × String)) : Except MappingError (List Alias) :=
  firstDeclared files mappingFiles

end CodeAtlas.Alias
