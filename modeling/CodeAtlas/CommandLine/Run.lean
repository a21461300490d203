import CodeAtlas.Analyze
import CodeAtlas.CommandLine.Command
import CodeAtlas.CommandLine.Table
import CodeAtlas.ConfigFile
import CodeAtlas.Disk
import CodeAtlas.Scan

/-!
# Running commands

A command is run in surroundings that are given as values, and ends in an outcome: what is printed,
what is written, and the exit code. A command may ask for one line of text on the way.
-/

namespace CodeAtlas

structure Surroundings where
  folder? : String → Option Folder
  /-- Why a file at a path cannot be written. -/
  writeError? : String → Option WriteError
  config : ConfigFile
  configPath : String
  environment : List (String × String)
  network : HttpRequest → HttpOutcome

/-- What a command fails on that it has no message for. -/
inductive Crash where
  | config (e : ConfigError)
  | mapping (e : Alias.MappingError)
  | save (e : SaveError)
  | render (e : Json.WriteError)
  | write (e : WriteError)
deriving Repr

structure Outcome where
  exitCode : Nat := 0
  output : String := ""
  /-- Messages of success and failure. -/
  marks : List String := []
  config : ConfigFile
  /-- A file that is written, with its text. -/
  written : Option (String × String) := none
  crash : Option Crash := none

/-- An outcome, or a question on which it depends. An empty answer is asked for again. -/
inductive Dialogue where
  | finished (outcome : Outcome)
  | ask (question : String) (answered : String → Outcome) (ended : Outcome)

namespace Dialogue

def prompt (question : String) : String :=
  question ++ ": \n"

def printFirst (text : String) (o : Outcome) : Outcome :=
  { o with output := text ++ o.output }

/-- The first answer that is not empty, after the questions that it took. -/
def settle (question : String) (answered : String → Outcome) (ended : Outcome) :
    List String → Outcome
  | [] => printFirst (prompt question) ended
  | line :: rest =>
    printFirst (prompt question)
      (if line.isEmpty then settle question answered ended rest else answered line)

def run : Dialogue → List String → Outcome
  | finished outcome, _ => outcome
  | ask question answered ended, lines => settle question answered ended lines

end Dialogue

namespace Command

def versionLine : String := "repograph v0.1.0\n"

def line (text : String) : String := text ++ "\n"

def helpText : String :=
  String.join (List.map line
    ["Usage: repograph [--version] [--help] COMMAND", "",
     "File and function dependency graphs for source repositories.", "",
     "Commands:",
     "  analyze PATH [-o FILE] [-f json|dot] [--view files|functions] [--no-llm]",
     "               [--max-files N] [--verbose]",
     "  languages",
     "  show-llm",
     "  set-llm PROVIDER [-m MODEL] [-k KEY] [-e URL]"])

def success (message : String) : String := "✓ " ++ message

def failure (message : String) : String := "✗ " ++ message

def crashed (config : ConfigFile) (crash : Crash) : Outcome :=
  { exitCode := 1, config, crash := some crash }

/-! ## Languages -/

/-- Languages read by syntax trees come first, each kind by name. -/
def comesBefore (a b : String × Strategy) : Bool :=
  if (a.2 == .tree) == (b.2 == .tree) then decide (a.1 ≤ b.1) else a.2 == .tree

def strategyText : Strategy → String
  | .tree => "syntax tree"
  | _ => "patterns"

def extensionsOf (language : String) : List String :=
  (((scriptExtensions ++ builtinExtensions).filter (·.2 == language)).map (·.1)).mergeSort
    fun a b => decide (a ≤ b)

def languageTable : TextTable :=
  { title := "Supported languages"
    head := ["Language", "Extractor", "Extensions"]
    rows := ((ExtensionTable.languages builtinExtensions).mergeSort comesBefore).map
      fun (language, strategy) =>
        [language, strategyText strategy, " ".intercalate (extensionsOf language)] }

/-! ## Analysis -/

def formatTitle : Format → String
  | .json => "JSON"
  | .dot => "DOT"

/-- A path as messages show it: without empty parts and single dots. -/
def shownPath (path : String) : String :=
  let parts := (Path.segments path).filter fun p => p != "" && p != "."
  let text := (if path.startsWith "/" then "/" else "") ++ Path.ofSegments parts
  if text.isEmpty then "." else text

def deliver (s : Surroundings) (r : AnalyzeRequest) (report : Report) : Outcome :=
  match report.render r.format r.view with
  | .error e => crashed s.config (.render e)
  | .ok text =>
    match r.output with
    | none => { config := s.config, output := line text }
    | some path =>
      match s.writeError? path with
      | some e => crashed s.config (.write e)
      | none =>
        { config := s.config
          marks := [success s!"Wrote {formatTitle r.format} graph to {shownPath path}"]
          written := some (path, text) }

def analyzeFolder (s : Surroundings) (r : AnalyzeRequest) (folder : Folder) : Outcome :=
  match s.config.settings s.environment with
  | .error e => crashed s.config (.config e)
  | .ok settings =>
    let files := Scan.fileMap {} folder.files
    match Alias.ofFiles files with
    | .error e => crashed s.config (.mapping e)
    | .ok aliases =>
      let plan : AnalysisPlan :=
        { aliases, maxFiles := r.maxFiles, enriched := r.enriched, rootLabel := folder.name
          settings, model := .network s.network }
      deliver s r (plan.run files).report

/-! ## The language model -/

def disabledLine : String :=
  "  LLM enrichment is disabled until an API key is configured."

/-- Shows what a language model is reached with, but for most of the key. -/
def showSettings (s : Surroundings) (settings : Settings) : Outcome :=
  let before := line s!"  Provider  {settings.provider}"
    ++ line ("  Model     " ++ settings.model.display)
    ++ line ("  Endpoint  " ++ settings.endpoint.display)
  match settings.maskedKey with
  | .error e => { crashed s.config (.config (.settings e)) with output := before }
  | .ok key =>
    { config := s.config
      output := before ++ line s!"  API Key   {key}" ++ line s!"  Config    {s.configPath}"
        ++ if settings.hasCredential then "" else line disabledLine }

def unsavedText : String := "Failed to save configuration!"

def saveChoice (s : Surroundings) (service : Service) (r : ChoiceRequest) (apiKey : ConfigValue) :
    Outcome :=
  let model := if r.model.isEmpty then service.defaultModel else r.model
  let (config, result) := s.config.save
    { provider := service.name, model, apiKey, endpoint := r.endpoint }
  match result with
  | .error e => crashed config (.save e)
  | .ok false => { exitCode := 1, config, marks := [failure unsavedText] }
  | .ok true =>
    { config
      marks := [success s!"LLM provider set to: {service.name}"]
      output := line s!"  Provider: {service.name}" ++ line s!"  Model:    {model}"
        ++ if r.endpoint.isEmpty then "" else line s!"  Endpoint: {r.endpoint}" }

def savedKey? (members : List (String × ConfigValue)) (service : Service) : Option ConfigValue :=
  match members.lookup "provider" with
  | some (.text name) =>
    if name == service.name then ConfigValue.present? (members.lookup "api_key") else none
  | _ => none

def unknownProviderText (provider : String) : String :=
  s!"Unknown provider '{provider}'. Choose from: "
    ++ ", ".intercalate (Service.all.map Service.name)

/-- Chooses a service. A key that is neither given, nor saved, nor needless is asked for. -/
def choose (s : Surroundings) (r : ChoiceRequest) : Dialogue :=
  let provider := Text.strip (Text.lower r.provider)
  match Service.ofName? provider with
  | none =>
    .finished { exitCode := 1, config := s.config, marks := [failure (unknownProviderText provider)] }
  | some service =>
    if service == .ollama || !r.apiKey.isEmpty then
      .finished (saveChoice s service r (.text r.apiKey))
    else match s.config.modelSection with
      | .error e => .finished (crashed s.config (.config e))
      | .ok members =>
        match savedKey? members service with
        | some key => .finished (saveChoice s service r key)
        | none =>
          .ask s!"Enter your {service.name} API key" (fun key => saveChoice s service r (.text key))
            { exitCode := 1, config := s.config, output := "\n" }

/-! ## Commands and arguments -/

def misused (config : ConfigFile) : Outcome :=
  { exitCode := 2, config }

def start (s : Surroundings) : Command → Dialogue
  | help => .finished { config := s.config, output := helpText }
  | version => .finished { config := s.config, output := versionLine }
  | languages => .finished { config := s.config, output := languageTable.render }
  | showModel =>
    .finished (match s.config.settings s.environment with
      | .error e => crashed s.config (.config e)
      | .ok settings => showSettings s settings)
  | analyze r =>
    .finished (match s.folder? r.path with
      | none => misused s.config
      | some folder => analyzeFolder s r folder)
  | setModel r => choose s r

def runArguments (s : Surroundings) (arguments : List String) : Dialogue :=
  match read? arguments with
  | none => .finished (misused s.config)
  | some command => start s command

end Command

end CodeAtlas
