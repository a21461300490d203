import CodeAtlas.CommandLine.Arguments
import CodeAtlas.Graph.Dot
import CodeAtlas.Number.Integer
import CodeAtlas.Text.Lower

/-!
# Commands

What can be asked for on the command line.
-/

namespace CodeAtlas

structure AnalyzeRequest where
  path : String
  output : Option String := none
  format : Format := .json
  view : Dot.View := .files
  enriched : Bool := true
  maxFiles : Option Int := none
deriving Repr, Inhabited

structure ChoiceRequest where
  provider : String
  model : String := ""
  apiKey : String := ""
  endpoint : String := ""
deriving Repr, Inhabited

inductive Command where
  | help
  | version
  | analyze (request : AnalyzeRequest)
  | languages
  | showModel
  | setModel (request : ChoiceRequest)
deriving Repr, Inhabited

namespace Command

def helpOption : ArgumentOption := ⟨"help", none, false⟩

def mainOptions : List ArgumentOption := [⟨"version", some 'V', false⟩, helpOption]

def analyzeOptions : List ArgumentOption :=
  [⟨"output", some 'o', true⟩, ⟨"format", some 'f', true⟩, ⟨"view", none, true⟩,
   ⟨"no-llm", none, false⟩, ⟨"max-files", none, true⟩, ⟨"verbose", none, false⟩, helpOption]

def choiceOptions : List ArgumentOption :=
  [⟨"model", some 'm', true⟩, ⟨"api-key", some 'k', true⟩, ⟨"endpoint", some 'e', true⟩, helpOption]

def format? (name : String) : Option Format :=
  [Format.json, .dot].find? (·.name == Text.lower name)

def view? (name : String) : Option Dot.View :=
  if ["files", "functions"].contains (Text.lower name) then some (.ofName (Text.lower name))
  else none

def maxFiles? (text : Option String) : Option (Option Int) :=
  match text with
  | none => some none
  | some text => match Integer.ofText? text with
    | some n => if 0 ≤ n then some (some n) else none
    | none => none

def analyze? (a : Arguments) : Option Command := do
  let [path] := a.plain | none
  let maxFiles ← maxFiles? (a.value? "max-files")
  let format ← format? ((a.value? "format").getD "json")
  let view ← view? ((a.value? "view").getD "files")
  pure (.analyze
    { path, output := a.value? "output", format, view, enriched := !a.has "no-llm", maxFiles })

def setModel? (a : Arguments) : Option Command := do
  let [provider] := a.plain | none
  pure (.setModel
    { provider, model := (a.value? "model").getD "", apiKey := (a.value? "api-key").getD ""
      endpoint := (a.value? "endpoint").getD "" })

/-- A command with its own arguments; help is given whatever else is wrong with them. -/
def readWith? (known : List ArgumentOption) (build : Arguments → Option Command)
    (arguments : List String) : Option Command :=
  match Arguments.read? known false {} arguments with
  | none => none
  | some a => if a.has "help" then some .help else build a

def bare? (c : Command) (a : Arguments) : Option Command :=
  if a.plain.isEmpty then some c else none

def named? (name : String) (arguments : List String) : Option Command :=
  match name with
  | "analyze" => readWith? analyzeOptions analyze? arguments
  | "languages" => readWith? [helpOption] (bare? .languages) arguments
  | "show-llm" => readWith? [helpOption] (bare? .showModel) arguments
  | "set-llm" => readWith? choiceOptions setModel? arguments
  | _ => none

def read? (arguments : List String) : Option Command :=
  match Arguments.read? mainOptions true {} arguments with
  | none => none
  | some a =>
    match a.options, a.plain with
    | (option, _) :: _, _ => some (if option == "help" then .help else .version)
    | [], name :: rest => named? name rest
    | [], [] => none

end Command

end CodeAtlas
