import CodeAtlas.Analysis
import CodeAtlas.Json.Writer

/-!
# What a language model is asked

A digest of each file as JSON, and the question around the digests.
-/

namespace CodeAtlas

structure Message where
  role : Option String
  content : Option String
deriving DecidableEq, Repr, Inhabited

def Message.toJson (m : Message) : Json :=
  .obj ((m.role.map fun r => ("role", Json.str r)).toList
    ++ (m.content.map fun c => ("content", Json.str c)).toList)

namespace FileAnalysis

def importDigest (b : ImportBinding) : Json :=
  .obj [("specifier", .str b.source), ("resolved", .ofOption b.target), ("kind", .str b.kind.name),
    ("symbols", .ofStrings (b.specifiers.map (·.importedName)))]

def exportDigest (f : FunctionRecord) : Json :=
  .obj [("name", .str f.displayName), ("exportName", .ofOption f.exportedAs),
    ("kind", .str f.kind.name), ("isExported", .bool f.exported)]

def callDigest (c : CallSite) : Json :=
  .obj [("callerId", .str c.caller), ("local", .str c.localName),
    ("imported", .ofOption c.importedName), ("importPath", .ofOption c.source),
    ("resolved", .ofOption c.target)]

def digest (a : FileAnalysis) : Json :=
  .obj [("filePath", .str a.path), ("size", .int a.size), ("preview", .str a.preview),
    ("imports", .arr (a.imports.map importDigest)),
    ("exports", .arr ((a.functions.filter (·.exported)).map exportDigest)),
    ("calls", .arr (a.calls.map callDigest))]

end FileAnalysis

namespace Prompt

def system : String :=
  "You are an expert software architecture analyst. Given structured summaries of project "
  ++ "files, identify how files and exported functions relate. Respond strictly with JSON that "
  ++ "matches the provided schema. Be concise."

def schema : String :=
  r#"
{
  "fileEdges": [
    {
      "source": "path/to/source.ts",
      "target": "path/to/target.ts",
      "relationship": "imports|uses|calls",
      "confidence": "low|medium|high"
    }
  ],
  "functionEdges": [
    {
      "source": { "filePath": "path/to/source.ts", "symbol": "ExportedSymbol" },
      "target": { "filePath": "path/to/target.ts", "symbol": "OtherSymbol" },
      "relationship": "calls|uses|renders",
      "confidence": "low|medium|high",
      "reason": "short justification"
    }
  ],
  "notes": ["optional string note"]
}
"#

def user (digests : List Json) : String :=
  "\n\n".intercalate
    ["Analyze the following project files. For each file, determine whether it references "
       ++ "other files or exported functions. Use the exact \"filePath\" strings provided. Only "
       ++ "include relationships you are confident about.",
     "Return JSON describing file-to-file and function-to-function relationships. If "
       ++ "uncertain, omit the relationship.",
     "Your response must match the following JSON shape (omit optional fields when not needed):",
     schema,
     "FILES:\n" ++ Json.write { ascii := true, indent := some 2 } (.arr digests)]

def messages (digests : List Json) : List Message :=
  [⟨some "system", some system⟩, ⟨some "user", some (user digests)⟩]

end Prompt

end CodeAtlas
