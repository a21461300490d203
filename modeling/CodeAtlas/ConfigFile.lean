import CodeAtlas.Settings
import CodeAtlas.Text.Basic
import CodeAtlas.Toml.Reader
import CodeAtlas.Toml.Writer

/-!
# The configuration file

A TOML document with a section for the language model and one for the analysis. A file that is not
there, or cannot be read, configures nothing.
-/

namespace CodeAtlas

structure ConfigFile where
  text : Option String := none
  /-- Whether the file can be written. -/
  writable : Bool := true
deriving Repr, Inhabited

/-- What a language model is to be reached with; empty parts take their defaults. -/
structure ModelChoice where
  provider : String
  model : String := ""
  apiKey : ConfigValue := .text ""
  endpoint : String := ""
deriving Repr, Inhabited

/-- Why a file does not configure anything. A text that is no TOML is not such a reason: it counts as
an empty one. -/
inductive ConfigError where
  | reading (e : Toml.ReadError)
  | settings (e : SettingsError)
deriving DecidableEq, Repr

inductive SaveError where
  | unknownProvider (name : String)
  | reading (e : Toml.ReadError)
  | writing (e : Toml.WriteError)
deriving DecidableEq, Repr

def SaveError.message : SaveError → String
  | unknownProvider name => s!"Unknown provider: {name}"
  | reading _ => "configuration cannot be read"
  | writing _ => "configuration cannot be written"

namespace ConfigFile

def document (c : ConfigFile) : Except Toml.ReadError (List (String × ConfigValue)) :=
  match c.text.map fun text => Toml.read (Text.unifyNewlines text) with
  | none => .ok []
  | some (.error .malformed) => .ok []
  | some result => result

/-- The section of the language model; a list of pairs is taken for a table. -/
def modelSection (c : ConfigFile) : Except ConfigError (List (String × ConfigValue)) := do
  let document ← c.document.mapError .reading
  match document.lookup "llm" with
  | none => pure []
  | some (.table members) => pure members
  | some (.list items) => (Settings.membersOf items []).mapError .settings
  | some (.text s) =>
    (Settings.membersOf (s.toList.map fun ch => .text ch.toString) []).mapError .settings
  | some _ => throw (.settings .notATable)

def settings (c : ConfigFile) (environment : List (String × String)) :
    Except ConfigError Settings := do
  let document ← c.document.mapError .reading
  (Settings.ofDocument (.table document) environment).mapError .settings

def sectionFor (service : Service) (choice : ModelChoice) : ConfigValue :=
  .table ([("provider", .text service.name),
      ("model", .text (if choice.model.isEmpty then service.defaultModel else choice.model))]
    ++ (if choice.apiKey.isBlank then [] else [("api_key", choice.apiKey)])
    ++ (if choice.endpoint.isEmpty then [] else [("endpoint", .text choice.endpoint)]))

/-- Saves a choice and leaves every other section as it is. Says whether the file could be written;
one that was opened for a document without a text is left empty. -/
def save (c : ConfigFile) (choice : ModelChoice) : ConfigFile × Except SaveError Bool :=
  let name := Text.lower choice.provider
  match Service.ofName? name, c.document with
  | none, _ => (c, .error (.unknownProvider name))
  | some _, .error e => (c, .error (.reading e))
  | some service, .ok document =>
    if !c.writable then (c, .ok false)
    else match Toml.write (ConfigValue.insertMember document "llm" (sectionFor service choice)) with
      | .ok text => ({ c with text := some text }, .ok true)
      | .error e => ({ c with text := some "" }, .error (.writing e))

end ConfigFile

end CodeAtlas
