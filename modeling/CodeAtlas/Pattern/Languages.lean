import CodeAtlas.Analysis
import CodeAtlas.Pattern.Basic
import CodeAtlas.Pattern.Specifier

/-!
# The pattern languages

For each language, the patterns of its imports, with the way their texts become specifiers, and the
patterns of its declarations.
-/

namespace CodeAtlas

structure PatternLanguage where
  language : String
  imports : List (Pattern × (String → Option String))
  declarations : List (Pattern × RecordKind)
  /-- Words that a declaration cannot be named by. -/
  reserved : List String
  /-- What divides an import text into several. -/
  separator : Option String := none

namespace Pattern

/-- Words of control flow, which look like names of functions. -/
def controlWords : List String :=
  ["if", "else", "for", "foreach", "while", "do", "switch", "case", "return", "catch", "try",
   "sizeof", "typeof", "new", "delete", "throw", "using", "lock", "fixed", "checked", "unchecked",
   "synchronized", "when", "elif", "defined", "static_assert", "assert", "super", "this", "await"]

def python : PatternLanguage where
  language := "python"
  imports :=
    [(lineOf [lit "from", blanks1, keep (some1 (isWordOr ".")), blanks1, lit "import", wordEdge],
      packageModule),
     (lineOf [lit "import", blanks1,
        keep (seq (some1 (isWordOr "."))
          (star (all [blanks0, lit ",", blanks0, some1 (isWordOr ".")])))],
      packageModule)]
  declarations :=
    [(lineOf [modifier? "async", lit "def", blanks1, name, blanks0, lit "("], .function),
     (lineOf [lit "class", blanks1, name], .classLike)]
  reserved := controlWords
  separator := some ","

def go : PatternLanguage where
  language := "go"
  imports :=
    [(lineOf [lit "import", blanks1, optional (seq (some1 (isWordOr ".")) blanks1), lit "\"",
        keep (some1 (isNoneOf "\"")), lit "\""],
      asWritten),
     (lineOf [lit "import", blanks0, lit "(", keep (some0 (isNoneOf ")")), lit ")"], quotedPath)]
  declarations :=
    [(all [lineStart, lit "func", blanks1,
        optional (all [lit "(", some0 (isNoneOf ")"), lit ")", blanks0]), name, blanks0,
        one (isOneOf "[(")],
      .function),
     (all [lineStart, lit "type", blanks1, name, blanks1, words ["struct", "interface"], wordEdge],
      .classLike)]
  reserved := controlWords
  separator := some "\n"

/-- `pub`, with what it is limited to. -/
def visibility : Pattern :=
  optional (all [lit "pub", optional (all [lit "(", some0 (isNoneOf ")"), lit ")"]), blanks1])

def rust : PatternLanguage where
  language := "rust"
  imports :=
    [(lineOf [visibility, lit "use", blanks1, keep (some1 (isNoneOf ";")), lit ";"], crate),
     (lineOf [visibility, lit "mod", blanks1, name, blanks0, lit ";"], relative)]
  declarations :=
    [(lineOf [visibility, modifier? "const", modifier? "async", modifier? "unsafe", lit "fn",
        blanks1, name],
      .function),
     (lineOf [visibility, words ["struct", "enum", "trait"], blanks1, name], .classLike)]
  reserved := controlWords

def machineClass : Pattern :=
  lineOf [modifiers ["public", "private", "protected", "internal", "abstract", "final", "static",
      "sealed", "data", "open", "inner"],
    words ["class", "interface", "enum", "record", "object", "trait"], blanks1, name]

def java : PatternLanguage where
  language := "java"
  imports :=
    [(lineOf [lit "import", blanks1, modifier? "static", keep (some1 (isWordOr ".*")), blanks0,
        lit ";"],
      dotted)]
  declarations :=
    [(machineClass, .classLike),
     (all [lineStart, tabs0,
        star (seq (words ["public", "private", "protected", "static", "final", "abstract",
          "synchronized", "native", "default"]) tabs1),
        optional (all [lit "<", some1 (isNoneOf ">\n"), lit ">", tabs1]),
        some1 (isWordOr "<>[],.?"), tabs1, name, tabs0, lit "(", some0 (isNoneOf ")"), lit ")",
        some0 (isWordOr " \t.,"), lit "\x7b"],
      .method)]
  reserved := controlWords

def kotlin : PatternLanguage where
  language := "kotlin"
  imports := [(lineOf [lit "import", blanks1, keep (some1 (isWordOr ".*"))], dotted)]
  declarations :=
    [(lineOf [modifiers ["public", "private", "protected", "internal", "override", "suspend",
          "inline", "open", "operator"],
        lit "fun", blanks1, optional (all [lit "<", some1 (isNoneOf ">"), lit ">", blanks0]),
        optional (seq (some1 (isWordOr ".")) (lit ".")), name, blanks0, lit "("],
      .function),
     (machineClass, .classLike)]
  reserved := controlWords

def scala : PatternLanguage where
  language := "scala"
  imports := [(lineOf [lit "import", blanks1, keep (some1 (isWordOr "."))], dotted)]
  declarations :=
    [(lineOf [modifiers ["override", "private", "protected", "final", "implicit"], lit "def",
        blanks1, name],
      .function),
     (machineClass, .classLike)]
  reserved := controlWords

def groovy : PatternLanguage where
  language := "groovy"
  imports :=
    [(lineOf [lit "import", blanks1, modifier? "static", keep (some1 (isWordOr ".*"))], dotted)]
  declarations :=
    [(lineOf [modifiers ["public", "private", "protected", "static"], lit "def", blanks1, name,
        blanks0, lit "("],
      .function),
     (machineClass, .classLike)]
  reserved := controlWords

def headerImports : List (Pattern × (String → Option String)) :=
  [(lineOf [lit "#", blanks0, words ["include", "import"], blanks1,
      keep (alt (all [lit "\"", some1 (isNoneOf "\""), lit "\""])
        (all [lit "<", some1 (isNoneOf ">"), lit ">"]))],
    header)]

def headedFunction : Pattern :=
  all [lineStart, tabs0, plus (seq (some1 (isWordOr ":<>,~")) (some1 (isOneOf " \t*&"))),
    keep (seq (one fun c => isCapital c || isSmall c || c == '_') word0), tabs0, lit "(",
    some0 (isNoneOf ";\x7b)"), lit ")", blanks0, optional (seq (lit "const") blanks0),
    optional (seq (lit "noexcept") blanks0), lit "\x7b"]

def braceStructure : Pattern :=
  lineOf [modifier? "typedef", lit "struct", blanks1, name, blanks0, lit "\x7b"]

def c : PatternLanguage where
  language := "c"
  imports := headerImports
  declarations := [(headedFunction, .function), (braceStructure, .classLike)]
  reserved := controlWords

def cpp : PatternLanguage where
  language := "cpp"
  imports := headerImports
  declarations :=
    [(headedFunction, .function), (braceStructure, .classLike),
     (lineOf [optional (all [lit "template", blanks0, lit "<", some0 (isNoneOf ">"), lit ">",
          blanks0]),
        lit "class", blanks1, name,
        optional (all [blanks0, lit ":", some0 (isNoneOf "\x7b;")]), blanks0, lit "\x7b"],
      .classLike)]
  reserved := controlWords

def objc : PatternLanguage where
  language := "objc"
  imports := headerImports
  declarations :=
    [(headedFunction, .function), (braceStructure, .classLike),
     (lineOf [lit "@", words ["interface", "implementation", "protocol"], blanks1, name],
      .classLike),
     (lineOf [one (isOneOf "-+"), blanks0, lit "(", some0 (isNoneOf ")"), lit ")", blanks0, name],
      .method)]
  reserved := controlWords

def csharp : PatternLanguage where
  language := "csharp"
  imports :=
    [(lineOf [modifier? "global", lit "using", blanks1, modifier? "static",
        keep (some1 (isWordOr ".")), blanks0, lit ";"],
      dotted)]
  declarations :=
    [(lineOf [modifiers ["public", "private", "protected", "internal", "static", "abstract",
          "sealed", "partial"],
        words ["class", "interface", "struct", "record", "enum"], blanks1, name],
      .classLike),
     (lineOf [plus (seq (words ["public", "private", "protected", "internal", "static", "virtual",
          "override", "abstract", "async", "sealed", "extern", "new"]) blanks1),
        some1 (isWordOr "<>[],.?"), blanks1, name, blanks0,
        optional (all [lit "<", some1 (isNoneOf ">"), lit ">"]), blanks0, lit "(",
        some0 (isNoneOf ")"), lit ")"],
      .method)]
  reserved := controlWords

def fsharp : PatternLanguage where
  language := "fsharp"
  imports := [(lineOf [lit "open", blanks1, keep (some1 (isWordOr "."))], dotted)]
  declarations :=
    [(lineOf [lit "let", blanks1, modifiers ["rec", "inline", "private"],
        keep (seq (one fun c => isSmall c || c == '_') word0), blanks1, one (isWordOr "(")],
      .function),
     (lineOf [lit "type", blanks1, name], .classLike)]
  reserved := controlWords

def ruby : PatternLanguage where
  language := "ruby"
  imports :=
    [(lineOf [lit "require_relative", blanks1, quotedText], relative),
     (lineOf [lit "require", blanks1, quotedText], asWritten)]
  declarations :=
    [(lineOf [lit "def", blanks1, optional (lit "self."),
        keep (seq word1 (optional (one (isOneOf "?!="))))],
      .function),
     (lineOf [words ["class", "module"], blanks1, keep (seq (one isCapital) word0)], .classLike)]
  reserved := controlWords

def php : PatternLanguage where
  language := "php"
  imports :=
    [(lineOf [lit "use", blanks1, keep (some1 (isWordOr "\\")),
        optional (all [blanks1, lit "as", blanks1, word1]), blanks0, lit ";"],
      lastSegment "\\"),
     (all [wordEdge, words ["require", "include"], optional (lit "_once"), blanks0,
        optional (lit "("), blanks0, quotedText],
      asWritten)]
  declarations :=
    [(lineOf [modifiers ["public", "private", "protected", "static", "abstract", "final"],
        lit "function", blanks1, name, blanks0, lit "("],
      .function),
     (lineOf [optional (seq (words ["abstract", "final"]) blanks1),
        words ["class", "interface", "trait", "enum"], blanks1, name],
      .classLike)]
  reserved := controlWords

def swift : PatternLanguage where
  language := "swift"
  imports :=
    [(lineOf [lit "import", blanks1,
        optional (any [seq (lit "class") blanks1, seq (lit "struct") blanks1,
          seq (lit "func") blanks1]),
        name],
      asWritten)]
  declarations :=
    [(lineOf [star (seq (alt (words ["public", "private", "internal", "fileprivate", "open",
            "static", "class", "override", "mutating"]) (seq (lit "@") word1)) blanks1),
        lit "func", blanks1, name],
      .function),
     (lineOf [modifiers ["public", "private", "internal", "fileprivate", "open", "final"],
        words ["class", "struct", "protocol", "enum", "actor", "extension"], blanks1, name],
      .classLike)]
  reserved := controlWords

def dart : PatternLanguage where
  language := "dart"
  imports := [(lineOf [words ["import", "export", "part"], blanks1, quotedText], schemed)]
  declarations :=
    [(all [lineStart, tabs0, star (seq (some1 (isWordOr "<>?,")) tabs1),
        keep (seq (one fun c => isCapital c || isSmall c || c == '_') word0), tabs0, lit "(",
        some0 (isNoneOf ")"), lit ")", tabs0,
        optional (all [lit "async", tabs0, optional (lit "*"), tabs0]), lit "\x7b"],
      .function),
     (lineOf [modifier? "abstract", words ["class", "mixin", "enum", "extension"], blanks1, name],
      .classLike)]
  reserved := controlWords

def shell : PatternLanguage where
  language := "shell"
  imports :=
    [(lineOf [words ["source", "."], blanks1, optional quote,
        keep (some1 fun c => isNoneOf "'\";" c && !Text.isBlank c), optional quote],
      asWritten)]
  declarations :=
    [(lineOf [modifier? "function", keep (some1 (isWordOr "-")), blanks0, lit "()", blanks0,
        lit "\x7b"],
      .function),
     (lineOf [lit "function", blanks1, keep (some1 (isWordOr "-")), blanks0, lineEnd], .function)]
  reserved := controlWords

def r : PatternLanguage where
  language := "r"
  imports :=
    [(all [wordEdge, words ["library", "require"], lit "(", blanks0, optional quote, name,
        optional quote, blanks0, lit ")"],
      asWritten),
     (all [wordEdge, lit "source(", blanks0, quotedText], relative)]
  declarations :=
    [(lineOf [keep (some1 (isWordOr ".")), blanks0, words ["<-", "="], blanks0, lit "function",
        blanks0, lit "("],
      .function)]
  reserved := controlWords

def julia : PatternLanguage where
  language := "julia"
  imports :=
    [(lineOf [words ["using", "import"], blanks1, keep (some1 (isWordOr "."))], asWritten),
     (all [wordEdge, lit "include(", blanks0, lit "\"", keep (some1 (isNoneOf "\"")), lit "\"",
        blanks0, lit ")"],
      relative)]
  declarations :=
    [(lineOf [lit "function", blanks1, optional (seq (some1 (isWordOr ".")) (lit ".")),
        keep (seq word1 (optional (lit "!")))],
      .function),
     (lineOf [modifier? "mutable", lit "struct", blanks1, name], .classLike)]
  reserved := controlWords

def lua : PatternLanguage where
  language := "lua"
  imports :=
    [(all [wordEdge, lit "require", blanks0, optional (lit "("), blanks0, quotedText, blanks0,
        optional (lit ")")],
      dotted)]
  declarations :=
    [(lineOf [modifier? "local", lit "function", blanks1, keep (some1 (isWordOr ".:")), blanks0,
        lit "("],
      .function),
     (lineOf [modifier? "local", name, blanks0, lit "=", blanks0, lit "function", blanks0, lit "("],
      .function)]
  reserved := controlWords

def capitalPath : Pattern :=
  keep (seq (one isCapital) (some0 (isWordOr ".")))

def capitalName : Pattern :=
  keep (seq (one isCapital) word0)

def primedName : Pattern :=
  keep (seq (one fun c => isSmall c || c == '_') (some0 (isWordOr "'")))

def elixir : PatternLanguage where
  language := "elixir"
  imports :=
    [(lineOf [words ["alias", "import", "use", "require"], blanks1, capitalPath], asWritten)]
  declarations :=
    [(lineOf [lit "def", optional (lit "p"), blanks1,
        keep (seq word1 (optional (one (isOneOf "?!"))))],
      .function),
     (lineOf [lit "defmodule", blanks1, keep (some1 (isWordOr "."))], .classLike)]
  reserved := controlWords

def haskell : PatternLanguage where
  language := "haskell"
  imports :=
    [(all [lineStart, lit "import", blanks1, modifier? "qualified", capitalPath], dotted)]
  declarations :=
    [(all [lineStart, primedName, blanks0, lit "::"], .function),
     (all [lineStart, words ["data", "newtype", "class", "type"], blanks1, capitalName],
      .classLike)]
  reserved := controlWords ++ ["module", "where", "let", "in"]

def ocaml : PatternLanguage where
  language := "ocaml"
  imports := [(lineOf [lit "open", blanks1, capitalPath], asWritten)]
  declarations :=
    [(lineOf [lit "let", blanks1, modifier? "rec", primedName], .function),
     (lineOf [lit "module", blanks1, modifier? "type", capitalName], .classLike)]
  reserved := controlWords ++ ["open", "in", "_"]

def erlang : PatternLanguage where
  language := "erlang"
  imports :=
    [(all [lineStart, lit "-include", optional (lit "_lib"), lit "(", blanks0, lit "\"",
        keep (some1 (isNoneOf "\"")), lit "\"", blanks0, lit ")"],
      relative),
     (all [lineStart, lit "-import(", blanks0, name, blanks0, lit ","], asWritten)]
  declarations :=
    [(all [lineStart, keep (seq (one isSmall) word0), blanks0, lit "(", some0 (isNoneOf ")"),
        lit ")", blanks0, optional (all [lit "when", blanks1, some0 (isNoneOf "-")]), lit "->"],
      .function),
     (all [lineStart, lit "-record(", blanks0, name, blanks0, lit ","], .classLike)]
  reserved := controlWords

def clojure : PatternLanguage where
  language := "clojure"
  imports :=
    [(all [lit "(:require", blanks1, optional (lit "["), keep (some1 (isWordOr ".-"))], dotted),
     (all [lineStart, blanks1, lit "[", keep (some1 (isWordOr ".-")), blanks1, lit ":",
        words ["as", "refer"]],
      dotted)]
  declarations :=
    [(all [lit "(defn", optional (lit "-"), blanks1, keep (some1 (isWordOr "-?!*<>"))], .function),
     (all [lit "(def", words ["record", "protocol", "type"], blanks1, keep (some1 (isWordOr "-"))],
      .classLike)]
  reserved := controlWords

def perl : PatternLanguage where
  language := "perl"
  imports :=
    [(lineOf [words ["use", "require"], blanks1,
        keep (seq (one isCapital) (some0 (isWordOr ":")))],
      doubleColon),
     (lineOf [lit "require", blanks1, quotedText], relative)]
  declarations :=
    [(lineOf [lit "sub", blanks1, name], .function),
     (lineOf [lit "package", blanks1, keep (some1 (isWordOr ":")), blanks0, lit ";"], .classLike)]
  reserved := controlWords

def qualifiedName : Pattern :=
  all [optional (seq (some1 (isWordOr "\"")) (lit ".")), optional (lit "\""), name]

def sql : PatternLanguage where
  language := "sql"
  imports :=
    [(lineOf [lit "\\i", optional (lit "r"), blanks1, keep (some1 (!Text.isBlank ·))], relative)]
  declarations :=
    [(all [wordEdge, anyCase "create", blanks1,
        optional (all [anyCase "or", blanks1, anyCase "replace", blanks1]),
        alt (anyCase "function") (anyCase "procedure"), blanks1, qualifiedName],
      .function),
     (all [wordEdge, anyCase "create", blanks1,
        optional (all [anyCase "or", blanks1, anyCase "replace", blanks1]),
        optional (seq (anyCase "temporary") blanks1), alt (anyCase "table") (anyCase "view"),
        blanks1,
        optional (all [anyCase "if", blanks1, anyCase "not", blanks1, anyCase "exists", blanks1]),
        qualifiedName],
      .classLike)]
  reserved := controlWords

def zig : PatternLanguage where
  language := "zig"
  imports :=
    [(all [lit "@import(", blanks0, lit "\"", keep (some1 (isNoneOf "\"")), lit "\"", blanks0,
        lit ")"],
      fileOrPackage ".zig")]
  declarations :=
    [(lineOf [modifier? "pub", modifier? "export", modifier? "inline", lit "fn", blanks1, name],
      .function),
     (lineOf [modifier? "pub", lit "const", blanks1, name, blanks0, lit "=", blanks0,
        optional (alt (seq (lit "packed") blanks1) (seq (lit "extern") blanks1)),
        words ["struct", "enum", "union"], wordEdge],
      .classLike)]
  reserved := controlWords

def nim : PatternLanguage where
  language := "nim"
  imports :=
    [(lineOf [words ["import", "include"], blanks1, keep (some1 (isWordOr "/, "))], asWritten),
     (lineOf [lit "from", blanks1, keep (some1 (isWordOr "/")), blanks1, lit "import", wordEdge],
      asWritten)]
  declarations :=
    [(lineOf [words ["proc", "func", "method", "iterator", "template", "macro"], blanks1, name],
      .function),
     (lineOf [capitalName, optional (lit "*"), blanks0, lit "=", blanks0,
        optional (alt (seq (lit "ref") blanks1) (seq (lit "ptr") blanks1)), lit "object", wordEdge],
      .classLike)]
  reserved := controlWords
  separator := some ","

def v : PatternLanguage where
  language := "v"
  imports := [(lineOf [lit "import", blanks1, keep (some1 (isWordOr "."))], dotted)]
  declarations :=
    [(lineOf [modifier? "pub", lit "fn", blanks1,
        optional (all [lit "(", some0 (isNoneOf ")"), lit ")", blanks0]), name],
      .function),
     (lineOf [modifier? "pub", words ["struct", "interface", "enum"], blanks1, name], .classLike)]
  reserved := controlWords

def solidity : PatternLanguage where
  language := "solidity"
  imports :=
    [(lineOf [lit "import", blanks1,
        optional (all [some0 (isNoneOf "'\""), blanks1, lit "from", blanks1]), quotedText],
      asWritten)]
  declarations :=
    [(lineOf [lit "function", blanks1, name, blanks0, lit "("], .function),
     (lineOf [lit "modifier", blanks1, name], .function),
     (lineOf [modifier? "abstract", words ["contract", "interface", "library"], blanks1, name],
      .classLike)]
  reserved := controlWords

def component : PatternLanguage where
  language := "component"
  imports :=
    [(lineOf [lit "import", blanks1,
        optional (all [run (isNoneOf "'\";") 0 true, wordEdge, lit "from", blanks1]), quotedText],
      asWritten),
     (all [wordEdge, lit "require", blanks0, lit "(", blanks0, quotedText, blanks0, lit ")"],
      asWritten)]
  declarations :=
    [(lineOf [modifier? "export", modifier? "async", lit "function", blanks1, name, blanks0,
        lit "("],
      .function),
     (lineOf [modifier? "export", words ["const", "let"], blanks1, name, blanks0, lit "=", blanks0,
        modifier? "async", alt (all [lit "(", some0 (isNoneOf ")"), lit ")"]) word1, blanks0,
        lit "=>"],
      .arrow)]
  reserved := controlWords

end Pattern

def builtinLanguages : List PatternLanguage :=
  [Pattern.python, Pattern.go, Pattern.rust, Pattern.java, Pattern.kotlin, Pattern.scala,
   Pattern.groovy, Pattern.c, Pattern.cpp, Pattern.objc, Pattern.csharp, Pattern.fsharp,
   Pattern.ruby, Pattern.php, Pattern.swift, Pattern.dart, Pattern.shell, Pattern.r, Pattern.julia,
   Pattern.lua, Pattern.elixir, Pattern.haskell, Pattern.ocaml, Pattern.erlang, Pattern.clojure,
   Pattern.perl, Pattern.sql, Pattern.zig, Pattern.nim, Pattern.v, Pattern.solidity,
   Pattern.component]

end CodeAtlas
