import CodeAtlas.Script.Rule

/-!
# Statements

The program, imports and exports, declarations of variables and the statements. A statement ends with
a semicolon that may be left out before a line end, a closing brace or the end of the text.
-/

namespace CodeAtlas.Script.Kind

open Rule

def statementRule? : Kind → Option Rule
  | .program => seq [opt hashBang, many statement]
  | .exportStatement =>
    choice [
      seq ["export",
        choice [seq ["*", fromClause], seq [namespaceExport, fromClause],
          seq [exportClause, fromClause], exportClause], semicolon],
      seq [many decorator, "export",
        choice [declaration,
          seq ["default", choice [declaration, seq [role .value expression, semicolon]]]]]]
  | .namespaceExport => seq ["*", "as", moduleName]
  | .exportClause => seq ["\x7b", commas exportSpecifier, opt ",", "\x7d"]
  | .exportSpecifier => seq [role .name moduleName, opt (seq ["as", role .aliasName moduleName])]
  | .moduleName => choice [identifier, string, "default"]
  | .declaration =>
    choice [functionDeclaration, generatorDeclaration, classDeclaration, lexicalDeclaration,
      variableDeclaration]
  | .importStatement =>
    seq ["import", choice [seq [importClause, fromClause], role .source string],
      opt importAttribute, semicolon]
  | .importClause =>
    choice [namespaceImport, namedImports,
      seq [identifier, opt (seq [",", choice [namespaceImport, namedImports]])]]
  | .fromClause => seq ["from", role .source string]
  | .namespaceImport => seq ["*", "as", identifier]
  | .namedImports => seq ["\x7b", commas importSpecifier, opt ",", "\x7d"]
  | .importSpecifier =>
    choice [role .name identifier, seq [role .name moduleName, "as", role .aliasName identifier]]
  | .importAttribute => seq ["with", object]
  | .statement =>
    choice [exportStatement, importStatement, debuggerStatement, expressionStatement, declaration,
      statementBlock, ifStatement, switchStatement, forStatement, forInStatement, whileStatement,
      doStatement, tryStatement, withStatement, breakStatement, continueStatement,
      returnStatement, throwStatement, emptyStatement, labeledStatement]
  | .expressionStatement => seq [expressions, semicolon]
  | .variableDeclaration => seq ["var", commas1 variableDeclarator, semicolon]
  | .lexicalDeclaration =>
    seq [role .keyword (choice ["let", "const"]), commas1 variableDeclarator, semicolon]
  | .variableDeclarator =>
    seq [role .name (choice [identifier, destructuringPattern]), opt initializer]
  | .statementBlock => rightGrouped (seq ["\x7b", many statement, "\x7d", opt automaticSemicolon])
  | .elseClause => seq ["else", statement]
  | .ifStatement => rightGrouped (seq ["if", parenthesized, statement, opt elseClause])
  | .switchStatement => seq ["switch", role .value parenthesized, role .body switchBody]
  | .forStatement =>
    seq ["for", "(",
      choice [role .initializer (choice [lexicalDeclaration, variableDeclaration]),
        seq [role .initializer expressions, ";"], role .initializer emptyStatement],
      choice [seq [expressions, ";"], emptyStatement], opt expressions, ")", role .body statement]
  | .forInStatement => seq ["for", opt "await", forHeader, role .body statement]
  | .forHeader =>
    seq ["(",
      choice [role .left (choice [target, parenthesized]),
        seq [role .keyword "var", role .left (choice [identifier, destructuringPattern]),
          opt initializer],
        seq [role .keyword (choice ["let", "const"]),
          role .left (choice [identifier, destructuringPattern]), opt automaticSemicolon]],
      choice ["in", "of"], expressions, ")"]
  | .whileStatement => seq ["while", parenthesized, role .body statement]
  | .doStatement =>
    rightGrouped (seq ["do", role .body statement, "while", parenthesized, opt semicolon])
  | .tryStatement => seq ["try", role .body statementBlock, opt catchClause, opt finallyClause]
  | .withStatement => seq ["with", parenthesized, role .body statement]
  | .breakStatement => seq ["break", opt (shown .statementLabel identifier), semicolon]
  | .continueStatement => seq ["continue", opt (shown .statementLabel identifier), semicolon]
  | .debuggerStatement => seq ["debugger", semicolon]
  | .returnStatement => seq ["return", opt expressions, semicolon]
  | .throwStatement => seq ["throw", expressions, semicolon]
  | .emptyStatement => mark ";"
  | .labeledStatement =>
    weighted (-1) (seq [shown .statementLabel (choice [identifier, softKeyword]), ":",
      role .body statement])
  | .switchBody => seq ["\x7b", many (choice [switchCase, switchDefault]), "\x7d"]
  | .switchCase => seq ["case", role .value expressions, ":", role .body (many statement)]
  | .switchDefault => seq ["default", ":", role .body (many statement)]
  | .catchClause =>
    seq ["catch",
      opt (seq ["(", role .parameter (choice [identifier, destructuringPattern]), ")"]),
      role .body statementBlock]
  | .finallyClause => seq ["finally", role .body statementBlock]
  | .semicolon => choice [automaticSemicolon, ";"]
  | _ => none

end CodeAtlas.Script.Kind
