import CodeAtlas.Script.Rule

/-!
# Statements of the typed dialects

Rules that differ from those of the plain dialect, and the declarations it does not have.
-/

namespace CodeAtlas.Script.Kind

open Rule

def typedStatementRule? : Kind → Option Rule
  | .exportStatement =>
    choice [
      seq ["export",
        choice [seq ["*", fromClause], seq [namespaceExport, fromClause],
          seq [exportClause, fromClause], exportClause], semicolon],
      seq [many decorator, "export",
        choice [declaration,
          seq ["default", choice [declaration, seq [role .value expression, semicolon]]]]],
      seq ["export", "type", exportClause, opt fromClause, semicolon],
      seq ["export", "import", importAlias], seq ["export", "=", expression, semicolon],
      seq ["export", "as", "namespace", identifier, semicolon]]
  | .exportSpecifier =>
    seq [opt (choice ["type", "typeof"]), role .name moduleName,
      opt (seq ["as", role .aliasName moduleName])]
  | .moduleName => choice [identifier, string]
  | .declaration =>
    choice [functionDeclaration, generatorDeclaration, classDeclaration, lexicalDeclaration,
      variableDeclaration, functionSignature, abstractClassDeclaration, moduleDeclaration,
      level .declaration namespaceDeclaration, typeAliasDeclaration, enumDeclaration,
      interfaceDeclaration, importAlias, ambientDeclaration]
  | .importStatement =>
    seq ["import", opt (choice ["type", "typeof"]),
      choice [seq [importClause, fromClause], importRequireClause, role .source string],
      opt importAttribute, semicolon]
  | .importClause =>
    choice [namespaceImport, namedImports,
      seq [importName, opt (seq [",", choice [namespaceImport, namedImports]])]]
  | .importSpecifier =>
    seq [opt (choice ["type", "typeof"]),
      choice [role .name importName,
        seq [role .name (choice [moduleName, shown .identifier "type"]), "as",
          role .aliasName importName]]]
  | .importName => choice [identifier, shown .identifier "type"]
  | .importRequireClause => seq [identifier, "=", "require", "(", role .source string, ")"]
  | .importAlias =>
    seq ["import", identifier, "=", choice [identifier, nestedIdentifier], semicolon]
  | .variableDeclarator =>
    choice [
      seq [role .name (choice [identifier, destructuringPattern]), opt typeNote,
        opt initializer], level .declaration (seq [role .name identifier, "!", typeNote])]
  | .catchClause =>
    seq ["catch",
      opt (seq ["(", role .parameter (choice [identifier, destructuringPattern]),
        opt typeNote, ")"]), role .body statementBlock]
  | .functionSignature =>
    seq [opt "async", "function", role .name identifier, callSignature,
      choice [semicolon, signatureSemicolon]]
  | .ambientDeclaration =>
    seq ["declare",
      choice [declaration, seq ["global", statementBlock],
        seq ["module", ".", shown .propertyIdentifier identifier, ":", typeTerm, semicolon]]]
  | .moduleDeclaration => seq ["module", moduleBody]
  | .namespaceDeclaration => seq ["namespace", moduleBody]
  | .moduleBody =>
    rightGrouped (seq [role .name (choice [string, identifier, nestedIdentifier]),
      role .body (opt statementBlock)])
  | .interfaceDeclaration =>
    seq ["interface", role .name typeName, opt typeParameters, opt extendsTypeClause,
      role .body (shown .interfaceBody objectType)]
  | .extendsTypeClause =>
    seq ["extends", commas1 (choice [typeName, nestedTypeIdentifier, genericType])]
  | .enumDeclaration => seq [opt "const", "enum", role .name identifier, role .body enumBody]
  | .enumBody =>
    seq ["\x7b", opt (seq [commas1 (choice [role .name propertyName, enumAssignment]), opt ","]),
      "\x7d"]
  | .enumAssignment => seq [role .name propertyName, initializer]
  | .typeAliasDeclaration =>
    seq ["type", role .name typeName, opt typeParameters, "=", role .value typeTerm, semicolon]
  | _ => none

end CodeAtlas.Script.Kind
