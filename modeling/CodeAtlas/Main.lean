import CodeAtlas.CommandLine.Run

/-!
# The program

Reads what a command needs, runs it and carries out its outcome. The files to analyse are listed on
standard input, one path a line, each starting with the path of the directory. There is no network
here, so a language model counts as unreachable.
-/

namespace CodeAtlas.Program

/-- The lines of a stream up to its end, after those before in reverse. -/
partial def linesFrom (input : IO.FS.Stream) (before : List String) : IO (List String) := do
  let line ← input.getLine
  if line.isEmpty then return before.reverse
  linesFrom input ((Text.lines line).headD "" :: before)

def namesBelow? (directory path : String) : Option (List String) :=
  let above := (Path.segments directory).filter (!·.isEmpty)
  let names := (Path.segments path).filter (!·.isEmpty)
  if above.isPrefixOf names && above != names then some (names.drop above.length) else none

/-- A listed file with its bytes, which are left out where the text is not needed. -/
def fileAt (path : String) (names : List String) : IO (Option (List String × ByteArray)) := do
  match Scan.partOf {} names with
  | .nothing => return none
  | .path => return some (names, .empty)
  | .text =>
    try return some (names, ← IO.FS.readBinFile path)
    catch _ => return none

def folderName (path : String) : IO String := do
  let here := (← IO.getEnv "PWD").getD ""
  return Path.basename (Path.normal (Path.join here path))

def listedFolder (path : String) (lines : List String) : IO Folder := do
  let files ← lines.filterMapM fun line =>
    match namesBelow? path line with
    | some names => fileAt line names
    | none => return none
  return ⟨← folderName path, files⟩

def variableNames : List String :=
  ["REPOGRAPH_LLM_PROVIDER", "REPOGRAPH_LLM_MODEL", "REPOGRAPH_LLM_API_KEY",
   "REPOGRAPH_LLM_ENDPOINT", "OPENAI_API_KEY"]

def environment : IO (List (String × String)) :=
  variableNames.filterMapM fun name => return (← IO.getEnv name).map ((name, ·))

def configDirectory : IO String := do
  match ← IO.getEnv "REPOGRAPH_HOME" with
  | some directory => return directory
  | none => return (← IO.getEnv "HOME").getD "" ++ "/.repograph"

def configAt (path : String) : IO ConfigFile := do
  try return { text := some (← IO.FS.readFile path) }
  catch _ => return {}

/-- Asks until the answer is not empty or the input ends. -/
partial def askFor (question : String) : IO (Option String) := do
  IO.print (question ++ ": ")
  (← IO.getStdout).flush
  let line ← (← IO.getStdin).getLine
  if line.isEmpty then return none
  match (Text.lines line).headD "" with
  | "" => askFor question
  | answer => return some answer

def converse : Dialogue → IO Outcome
  | .finished outcome => return outcome
  | .ask question answered ended => do
    match ← askFor question with
    | some answer => return answered answer
    | none => return ended

def saveConfig (directory path : String) (before after : ConfigFile) : IO Bool := do
  if after.text == before.text then return true
  try
    IO.FS.createDirAll directory
    IO.FS.writeFile path (after.text.getD "")
    return true
  catch _ => return false

def carryOut (directory path : String) (before : ConfigFile) (o : Outcome) : IO UInt32 := do
  unless ← saveConfig directory path before o.config do
    IO.eprintln (Command.failure Command.unsavedText)
    return 1
  IO.print o.output
  if let some (target, text) := o.written then
    IO.FS.writeFile target text
  for mark in o.marks do
    IO.eprintln mark
  if o.crash.isSome then
    IO.eprintln (Command.failure "The command failed.")
  return o.exitCode.toUInt32

end CodeAtlas.Program

open CodeAtlas CodeAtlas.Program in
def main (arguments : List String) : IO UInt32 := do
  let directory ← configDirectory
  let path := directory ++ "/config.toml"
  let config ← configAt path
  let folder ← match Command.read? arguments with
    | some (.analyze r) =>
      some <$> listedFolder r.path (← linesFrom (← IO.getStdin) [])
    | _ => pure none
  let outcome ← converse (Command.runArguments
    { folder? := fun _ => folder
      writeError? := fun _ => none
      config
      configPath := path
      environment := ← environment
      network := fun _ => .unreachable "no network" } arguments)
  if outcome.exitCode == 2 then
    IO.eprint Command.helpText
  carryOut directory path config outcome
