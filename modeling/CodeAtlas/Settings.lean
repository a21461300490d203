import CodeAtlas.Config.Value
import CodeAtlas.Number.Integer
import CodeAtlas.Text.Lower

/-!
# Settings

What a run is configured with: the values of a configuration document, overlaid by the environment.
Texts of the document are taken as they stand, whatever they are; numbers that make no integer fall
back to their defaults.
-/

namespace CodeAtlas

inductive Service where
  | openai
  | openrouter
  | groq
  | anthropic
  | ollama
deriving DecidableEq, Repr, Inhabited

namespace Service

def name : Service → String
  | openai => "openai"
  | openrouter => "openrouter"
  | groq => "groq"
  | anthropic => "anthropic"
  | ollama => "ollama"

def all : List Service :=
  [openai, openrouter, groq, anthropic, ollama]

def ofName? (name : String) : Option Service :=
  all.find? (·.name == name)

def defaultModel : Service → String
  | openai => "gpt-4o-mini"
  | openrouter => "openai/gpt-4o-mini"
  | groq => "llama-3.3-70b-versatile"
  | anthropic => "claude-3-5-haiku-20241022"
  | ollama => "qwen2.5-coder:7b"

def defaultEndpoint : Service → String
  | openai => "https://api.openai.com/v1/chat/completions"
  | openrouter => "https://openrouter.ai/api/v1/chat/completions"
  | groq => "https://api.groq.com/openai/v1/chat/completions"
  | anthropic => "https://api.anthropic.com/v1/messages"
  | ollama => "http://127.0.0.1:11434/api/generate"

end Service

structure Settings where
  provider : String := Service.openai.name
  model : ConfigValue := .text Service.openai.defaultModel
  apiKey : ConfigValue := .text ""
  endpoint : ConfigValue := .text Service.openai.defaultEndpoint
  maxFiles : Int := 1000
  concurrency : Int := 8
  /-- With fewer files no model is asked. -/
  minModelFiles : Int := 5
  /-- How many files a model is shown. -/
  maxModelFiles : Int := 20
  timeout : Int := 30
  maxTokens : Int := 800
deriving Repr, Inhabited

inductive SettingsError where
  /-- The document, or the name of the provider, is of a type that has no such operation. -/
  | wrongType
  /-- A section is no table and cannot be taken for one. -/
  | notATable
  /-- An element of a section is no pair. -/
  | notAPair
  | infinite
deriving DecidableEq, Repr

namespace Settings

def hasCredential (s : Settings) : Bool :=
  !s.apiKey.isBlank || s.provider == Service.ollama.name

def maskText (s : String) : String :=
  let cs := s.toList
  if cs.length ≤ 8 then "****"
  else String.ofList (cs.take 4) ++ "…" ++ String.ofList (cs.drop (cs.length - 4))

def maskedKey (s : Settings) : Except SettingsError String :=
  if s.apiKey.isBlank then .ok "(not set)"
  else match s.apiKey with
    | .text key => .ok (maskText key)
    | .list items =>
      if items.length ≤ 8 then .ok "****"
      else .ok (ConfigValue.literal (.list (items.take 4)) ++ "…"
        ++ ConfigValue.literal (.list (items.drop (items.length - 4))))
    | .table members => if members.length ≤ 8 then .ok "****" else .error .notATable
    | _ => .error .notATable

/-! ## Sections -/

/-- An element of a list as a member: two items, two characters, or the keys of a table of two. -/
def pairOf (v : ConfigValue) : Except SettingsError (Option (String × ConfigValue)) :=
  match v with
  | .list [.list _, _] => .error .notATable
  | .list [.table _, _] => .error .notATable
  | .list [.text key, value] => .ok (some (key, value))
  | .list [_, _] => .ok none
  | .table [(key, _), (value, _)] => .ok (some (key, .text value))
  | .text s =>
    match s.toList with
    | [a, b] => .ok (some (a.toString, .text b.toString))
    | _ => .error .notAPair
  | .list _ => .error .notAPair
  | .table _ => .error .notAPair
  | _ => .error .notATable

def membersOf : List ConfigValue → List (String × ConfigValue) →
    Except SettingsError (List (String × ConfigValue))
  | [], members => .ok members
  | v :: rest, members =>
    match pairOf v with
    | .error e => .error e
    | .ok none => membersOf rest members
    | .ok (some (key, value)) => membersOf rest (ConfigValue.insertMember members key value)

/-- The members of a section; lists of pairs are taken for tables, and nothing for an empty one. -/
def sectionOf (document : List (String × ConfigValue)) (name : String) :
    Except SettingsError (List (String × ConfigValue)) :=
  match ConfigValue.present? (document.lookup name) with
  | none => .ok []
  | some (.table members) => .ok members
  | some (.list items) => membersOf items []
  | some (.text s) => membersOf (s.toList.map fun c => .text c.toString) []
  | some _ => .error .notATable

/-! ## Numbers -/

def integerOf (v : ConfigValue) (default : Int) : Except SettingsError Int :=
  match v with
  | .int n => .ok n
  | .bool b => .ok (if b then 1 else 0)
  | .real (.infinite _) => .error .infinite
  | .real x => .ok (x.truncate?.getD default)
  | .text s => .ok ((Integer.ofText? s).getD default)
  | _ => .ok default

def integerAt (members : List (String × ConfigValue)) (name : String) (default : Int) :
    Except SettingsError Int :=
  match members.lookup name with
  | some v => integerOf v default
  | none => .ok default

/-! ## Building settings -/

def fromEnvironment? (environment : List (String × String)) (name : String) :
    Option ConfigValue :=
  ((environment.lookup name).filter (!·.isEmpty)).map .text

def providerOf (environment : List (String × String)) (llm : List (String × ConfigValue)) :
    Except SettingsError String :=
  match (fromEnvironment? environment "REPOGRAPH_LLM_PROVIDER").or
      (ConfigValue.present? (llm.lookup "provider")) with
  | some (.text s) => .ok (Text.lower s)
  | some _ => .error .wrongType
  | none => .ok Service.openai.name

def keyOf (environment : List (String × String)) (llm : List (String × ConfigValue))
    (provider : String) : ConfigValue :=
  match (fromEnvironment? environment "REPOGRAPH_LLM_API_KEY").or
      (ConfigValue.present? (llm.lookup "api_key")) with
  | some key => key
  | none =>
    if provider == Service.openai.name then
      .text ((environment.lookup "OPENAI_API_KEY").getD "")
    else .text ""

def ofDocument (document : ConfigValue) (environment : List (String × String)) :
    Except SettingsError Settings := do
  let .table members := document | .error .wrongType
  let llm ← sectionOf members "llm"
  let analysis ← sectionOf members "analysis"
  let provider ← providerOf environment llm
  let service := (Service.ofName? provider).getD .openai
  let text (name key default : String) : ConfigValue :=
    ((fromEnvironment? environment name).or (ConfigValue.present? (llm.lookup key))).getD
      (.text default)
  let maxFiles ← integerAt analysis "max_files" 1000
  let concurrency ← integerAt analysis "concurrency" 8
  let minModelFiles ← integerAt analysis "llm_min_files" 5
  let maxModelFiles ← integerAt analysis "llm_max_files" 20
  let timeout ← integerAt analysis "llm_timeout" 30
  let maxTokens ← integerAt analysis "llm_max_tokens" 800
  pure
    { provider
      model := text "REPOGRAPH_LLM_MODEL" "model" service.defaultModel
      apiKey := keyOf environment llm provider
      endpoint := text "REPOGRAPH_LLM_ENDPOINT" "endpoint" service.defaultEndpoint
      maxFiles, concurrency, minModelFiles, maxModelFiles, timeout, maxTokens }

end Settings

end CodeAtlas
