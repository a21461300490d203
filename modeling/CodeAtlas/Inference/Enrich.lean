import CodeAtlas.Inference.Merge
import CodeAtlas.Inference.Reply
import CodeAtlas.Provider.Basic

/-!
# Enriching the graphs

Asks a language model, at most once, and merges what it proposes. A model that fails leaves the
graphs as they are.
-/

namespace CodeAtlas

/-- Who is asked: something that answers questions, or the configured provider over a network. -/
inductive Model where
  | direct (ask : Question → Except Failure Json)
  | network (send : HttpRequest → HttpOutcome)

structure Asked where
  question : Question
  request : Option HttpRequest := none
deriving Repr, Inhabited

structure Enrichment where
  assembly : Assembly
  warnings : Except Failure (List String)
  asked : Option Asked := none

namespace Enrichment

def missingCredential : String :=
  "Set REPOGRAPH_LLM_API_KEY (or OPENAI_API_KEY) to enable LLM-inferred relationships."

def failureWarning (f : Failure) : String :=
  "LLM relationship inference failed: " ++ f.message

/-- The first so many elements; a negative number leaves out as many at the end. -/
def takeInt {α : Type} (n : Int) (xs : List α) : List α :=
  if n < 0 then xs.take (xs.length - n.natAbs) else xs.take n.natAbs

def temperature : Json := .real (.ofDecimal false 5 1 (-2))

def questionFor (s : Settings) (analyses : List FileAnalysis) : Question :=
  { messages := Prompt.messages (takeInt s.maxModelFiles (analyses.map FileAnalysis.digest))
    maxTokens := .int s.maxTokens, temperature, timeout := .int s.timeout }

def plural (n : Nat) : String :=
  if n == 1 then "" else "s"

def summary (m : Merge) : List String :=
  if m.addedFiles == 0 && m.addedFunctions == 0 then []
  else [s!"LLM inferred {m.addedFiles} file relationship{plural m.addedFiles} and "
    ++ s!"{m.addedFunctions} function relationship{plural m.addedFunctions}."]

def settle (a : Assembly) (asked : Asked) : Except Failure Json → Enrichment
  | .ok reply =>
    let p := Reply.proposals reply
    let m := a.merge p
    ⟨m.assembly, .ok (p.notes.map ("LLM: " ++ ·) ++ summary m), some asked⟩
  | .error f => ⟨a, if f.isExpected then .ok [failureWarning f] else .error f, some asked⟩

def idle (a : Assembly) (warnings : List String) : Enrichment :=
  ⟨a, .ok warnings, none⟩

def refused (a : Assembly) (f : Failure) : Enrichment :=
  ⟨a, if f.isExpected then .ok [failureWarning f] else .error f, none⟩

def overNetwork (a : Assembly) (s : Settings) (send : HttpRequest → HttpOutcome) : Enrichment :=
  if !s.hasCredential then idle a [missingCredential]
  else match Provider.ofSettings s with
    | .error f => refused a f
    | .ok p =>
      if a.analyses.isEmpty then idle a []
      else
        let q := questionFor s a.analyses
        match p.request q with
        | .error f => refused a f
        | .ok r => settle a ⟨q, some r⟩ (p.answer q (send r))

def directly (a : Assembly) (s : Settings) (ask : Question → Except Failure Json) : Enrichment :=
  if a.analyses.isEmpty then idle a []
  else
    let q := questionFor s a.analyses
    settle a ⟨q, none⟩ (ask q)

end Enrichment

def Assembly.enrich (a : Assembly) (s : Settings) (model : Model) : Enrichment :=
  if (a.analyses.length : Int) < s.minModelFiles then Enrichment.idle a []
  else match model with
    | .direct ask => Enrichment.directly a s ask
    | .network send => Enrichment.overNetwork a s send

end CodeAtlas
