import CodeAtlas.Inference.Prompt
import CodeAtlas.Json.Reader
import CodeAtlas.Provider.Failure
import CodeAtlas.Text.Basic

/-!
# Asking a language model over the network

A provider turns a question into one HTTP request and reads the answer out of the response. The
network itself is a function from requests to outcomes.
-/

namespace CodeAtlas

structure Question where
  messages : List Message
  maxTokens : Json := .int 800
  temperature : Json
  timeout : Json := .int 30
deriving Repr, Inhabited

structure HttpRequest where
  url : Json
  headers : List (String × String)
  body : Json
  timeout : Json
deriving Repr, Inhabited

inductive HttpOutcome where
  | timedOut
  | unreachable (text : String)
  | response (status : Int) (reason body : String)
deriving Repr, Inhabited

structure Provider where
  service : Service
  model : Json
  endpoint : Json
  apiKey : Json
deriving Repr, Inhabited

namespace Provider

def ofSettings (s : Settings) : Except Failure Provider :=
  match Service.ofName? (Text.lower s.provider) with
  | none => .error (.unknownProvider s.provider)
  | some service => .ok
    { service
      model := if s.model.isBlank then .str service.defaultModel else s.model.toJson
      endpoint := if s.endpoint.isBlank then .str service.defaultEndpoint else s.endpoint.toJson
      apiKey := s.apiKey.toJson }

/-! ## Requests -/

def contents (fromSystem : Bool) : List Message → Except Failure (List String)
  | [] => .ok []
  | m :: rest =>
    match m.role with
    | none => .error (.missingField "role")
    | some role =>
      if (role == "system") == fromSystem then
        match m.content with
        | none => .error (.missingField "content")
        | some content => (contents fromSystem rest).map (content :: ·)
      else contents fromSystem rest

def joined (parts : List String) : String :=
  "\n\n".intercalate parts

def chatBody (p : Provider) (q : Question) (messages : List Message)
    (extra : List (String × Json)) : Json :=
  .obj ([("model", p.model), ("messages", .arr (messages.map Message.toJson)),
    ("max_tokens", q.maxTokens), ("temperature", q.temperature)] ++ extra)

def post (p : Provider) (q : Question) (headers : List (String × String)) (body : Json) :
    HttpRequest :=
  { url := p.endpoint, headers := ("Content-Type", "application/json") :: headers, body
    timeout := q.timeout }

/-- The request for a question; all services but one want a key. -/
def request (p : Provider) (q : Question) : Except Failure HttpRequest :=
  match p.service with
  | .ollama => do
    let system ← contents true q.messages
    let prompt ← contents false q.messages
    pure (p.post q [] (.obj
      [("model", p.model), ("system", .str (joined system)), ("prompt", .str (joined prompt)),
       ("stream", .bool false), ("format", .str "json"),
       ("options", .obj [("temperature", q.temperature), ("num_predict", q.maxTokens)])]))
  | .anthropic =>
    if p.apiKey.isBlank then .error (.noKey .anthropic)
    else do
      let system := joined (← contents true q.messages)
      let extra := if system.isEmpty then [] else [("system", Json.str system)]
      pure (p.post q [("x-api-key", p.apiKey.display), ("anthropic-version", "2023-06-01")]
        (p.chatBody q (q.messages.filter (·.role != some "system")) extra))
  | service =>
    if p.apiKey.isBlank then .error (.noKey service)
    else .ok (p.post q [("Authorization", "Bearer " ++ p.apiKey.display)]
      (p.chatBody q q.messages []))

/-! ## Responses -/

def at? (key : String) (j : Option Json) : Option Json :=
  j.bind (·.get? key)

def first? (j : Option Json) : Option Json :=
  (j.bind Json.arr?).bind List.head?

def textOf (message : List (String × Json)) (key : String) : Except Failure (Option String) :=
  match Json.present? (Json.lookup message key) with
  | none => .ok none
  | some (.str s) => .ok (if (Text.strip s).isEmpty then none else some s)
  | some j => .error (.wrongType j.typeName "strip")

/-- The content of a message, or its reasoning where the content is blank. -/
def chatText (message : Json) : Except Failure (Option String) :=
  match message with
  | .obj members => do
    match ← textOf members "content" with
    | some text => pure (some text)
    | none => textOf members "reasoning"
  | j => .error (.wrongType j.typeName "get")

def answerIn (p : Provider) (value : Json) : Except Failure Json :=
  match p.service with
  | .ollama =>
    match Json.present? (value.get? "response") with
    | some answer => .ok answer
    | none => .error (.noContent .ollama)
  | .anthropic =>
    match at? "text" (first? (value.get? "content")) with
    | some answer => .ok answer
    | none => .error (.noContent .anthropic)
  | service =>
    match at? "message" (first? (value.get? "choices")) with
    | none => .error (.noContent service)
    | some message => do
      match ← chatText message with
      | some text => pure (.str text)
      | none => .error (.noContent service)

def isSuccess (status : Int) : Bool :=
  status < 400 || 600 ≤ status

/-- A byte order mark in front of a body is no part of it. -/
def dropMark (body : String) : String :=
  match body.toList with
  | '\ufeff' :: rest => String.ofList rest
  | _ => body

def answer (p : Provider) (q : Question) (outcome : HttpOutcome) : Except Failure Json :=
  match outcome with
  | .timedOut => .error (.timedOut p.service q.timeout)
  | .unreachable text => .error (.unreachable p.service text)
  | .response status reason body =>
    if !isSuccess status then .error (.badStatus p.service status reason)
    else match Json.read (dropMark body) with
      | .ok value => p.answerIn value
      | .error .tooDeep => .error .tooDeep
      | .error _ => .error (.notJson p.service)

def complete (p : Provider) (network : HttpRequest → HttpOutcome) (q : Question) :
    Except Failure Json := do
  let r ← p.request q
  p.answer q (network r)

end Provider

end CodeAtlas
