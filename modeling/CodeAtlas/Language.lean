import CodeAtlas.Text.Lower
import CodeAtlas.Text.Path

/-!
# Languages by file extension

A file is read by a syntax tree, by patterns, or not at all, as its extension says. Extensions read
by a syntax tree are fixed; more extensions can be given to pattern languages.
-/

namespace CodeAtlas

inductive Strategy where
  | tree
  | patterns
  | unsupported
deriving DecidableEq, Repr, Inhabited

def Strategy.name : Strategy → String
  | tree => "ast"
  | patterns => "pattern"
  | unsupported => "unsupported"

structure LanguageChoice where
  strategy : Strategy
  language : Option String := none
deriving DecidableEq, Repr, Inhabited

def LanguageChoice.supported (c : LanguageChoice) : Bool :=
  c.strategy != .unsupported

def scriptExtensions : List (String × String) :=
  [(".js", "javascript"), (".jsx", "javascript"), (".mjs", "javascript"), (".cjs", "javascript"),
   (".ts", "typescript"), (".tsx", "tsx")]

abbrev ExtensionTable := List (String × String)

def builtinExtensions : ExtensionTable :=
  [(".py", "python"), (".pyw", "python"), (".pyx", "python"), (".go", "go"), (".rs", "rust"),
   (".java", "java"), (".kt", "kotlin"), (".kts", "kotlin"), (".scala", "scala"), (".sc", "scala"),
   (".groovy", "groovy"), (".gradle", "groovy"), (".c", "c"), (".h", "c"), (".cpp", "cpp"),
   (".cc", "cpp"), (".cxx", "cpp"), (".hpp", "cpp"), (".hh", "cpp"), (".hxx", "cpp"),
   (".m", "objc"), (".mm", "objc"), (".cs", "csharp"), (".fs", "fsharp"), (".fsx", "fsharp"),
   (".rb", "ruby"), (".rake", "ruby"), (".php", "php"), (".phtml", "php"), (".swift", "swift"),
   (".dart", "dart"), (".sh", "shell"), (".bash", "shell"), (".zsh", "shell"), (".fish", "shell"),
   (".r", "r"), (".jl", "julia"), (".lua", "lua"), (".ex", "elixir"), (".exs", "elixir"),
   (".hs", "haskell"), (".ml", "ocaml"), (".mli", "ocaml"), (".erl", "erlang"), (".hrl", "erlang"),
   (".clj", "clojure"), (".cljs", "clojure"), (".cljc", "clojure"), (".pl", "perl"),
   (".pm", "perl"), (".sql", "sql"), (".zig", "zig"), (".nim", "nim"), (".v", "v"),
   (".sol", "solidity"), (".vue", "component"), (".svelte", "component"), (".astro", "component")]

namespace ExtensionTable

def find? (table : List (String × String)) (extension : String) : Option String :=
  (table.find? (·.1 == extension)).map (·.2)

def detect (table : ExtensionTable) (path : String) : LanguageChoice :=
  let extension := Text.lower (Path.extension path)
  match find? scriptExtensions extension with
  | some language => ⟨.tree, some language⟩
  | none => match find? table extension with
    | some language => if extension.isEmpty then ⟨.unsupported, none⟩ else ⟨.patterns, some language⟩
    | none => ⟨.unsupported, none⟩

def normalExtension (extension : String) : String :=
  let e := Text.lower extension
  if e.startsWith "." then e else "." ++ e

inductive RegisterError where
  /-- The extension belongs to a language read by a syntax tree. -/
  | handledByTree (extension : String)
deriving DecidableEq, Repr

def RegisterError.message : RegisterError → String
  | handledByTree e => s!"{e} is handled by the AST extractor"

def register (table : ExtensionTable) (extension language : String) :
    Except RegisterError ExtensionTable :=
  let e := normalExtension extension
  if (find? scriptExtensions e).isSome then .error (.handledByTree e)
  else if table.any (·.1 == e) then
    .ok (table.map fun entry => if entry.1 == e then (e, language) else entry)
  else .ok (table ++ [(e, language)])

/-- Every language with the way its files are read; a language of both kinds counts as read by a
syntax tree. -/
def languages (table : ExtensionTable) : List (String × Strategy) :=
  let all := scriptExtensions.map (fun (_, l) => (l, Strategy.tree))
    ++ table.map fun (_, l) => (l, Strategy.patterns)
  all.foldl (fun seen entry => if seen.any (·.1 == entry.1) then seen else seen ++ [entry]) []

end ExtensionTable

/-! ## Previews -/

def maxPreviewChars : Nat := 4000

def previewMark : String := "\n/* …preview truncated… */"

def preview (content : String) : String :=
  let chars := content.toList
  if maxPreviewChars < chars.length then String.ofList (chars.take maxPreviewChars) ++ previewMark
  else content

end CodeAtlas
