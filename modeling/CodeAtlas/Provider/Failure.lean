import CodeAtlas.Settings

/-!
# Why a language model gave no answer
-/

namespace CodeAtlas

inductive Failure where
  | unknownProvider (name : String)
  | noKey (s : Service)
  | timedOut (s : Service) (timeout : Json)
  | unreachable (s : Service) (text : String)
  | badStatus (s : Service) (status : Int) (reason : String)
  | notJson (s : Service)
  | noContent (s : Service)
  /-- A failure that the provider itself has put into words. -/
  | reported (text : String)
  /-- A value in the response is of a type without the wanted operation. -/
  | wrongType (type operation : String)
  /-- A message lacks a field. -/
  | missingField (name : String)
  | tooDeep
  /-- Anything else that went wrong inside a provider. -/
  | unexpected (text : String)
deriving Repr, Inhabited

namespace Failure

/-- Failures of transport or protocol, as opposed to faults while handling the response. -/
def isExpected : Failure → Bool
  | wrongType .. | missingField _ | tooDeep | unexpected _ => false
  | _ => true

def message : Failure → String
  | unknownProvider name => "Unknown LLM provider: " ++ name
  | noKey s => s!"{s.name} API key is not configured"
  | timedOut s timeout => s!"{s.name} request timed out after {timeout.display}s"
  | unreachable s text => s!"{s.name} request failed: {text}"
  | badStatus s status reason => s!"{s.name} API error: {status} {reason}"
  | notJson s => s!"{s.name} returned a non-JSON body"
  | noContent .ollama => "No response content from ollama"
  | noContent s => s!"No response content from {s.name} API"
  | reported text => text
  | wrongType type operation => s!"'{type}' object has no attribute '{operation}'"
  | missingField name => s!"'{name}'"
  | tooDeep =>
    "maximum recursion depth exceeded while decoding a JSON array from a unicode string"
  | unexpected text => text

end Failure

end CodeAtlas
