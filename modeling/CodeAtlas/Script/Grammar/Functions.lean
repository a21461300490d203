import CodeAtlas.Script.Rule

/-!
# Functions, classes and patterns

What a function takes and what a class holds, and the patterns that take values apart.
-/

namespace CodeAtlas.Script.Kind

open Rule

def functionRule? : Kind → Option Rule
  | .classExpression =>
    level .literal (seq [many decorator, "class", role .name (opt identifier), opt classHeritage,
      role .body classBody])
  | .classDeclaration =>
    level .declaration (seq [many decorator, "class", role .name identifier, opt classHeritage,
      role .body classBody, opt automaticSemicolon])
  | .classHeritage => seq ["extends", expression]
  | .classBody =>
    seq ["\x7b",
      many (choice [seq [methodDefinition, opt ";"], seq [fieldDefinition, semicolon],
        staticBlock, ";"]), "\x7d"]
  | .fieldDefinition => seq [many decorator, opt "static", propertyName, opt initializer]
  | .staticBlock => seq ["static", opt automaticSemicolon, role .body statementBlock]
  | .decorator =>
    seq ["@",
      choice [identifier, shown .memberExpression decoratorMember,
        shown .callExpression decoratorCall]]
  | .decoratorMember =>
    level .member (seq [choice [identifier, shown .memberExpression decoratorMember], ".",
      shown .propertyIdentifier identifier])
  | .decoratorCall =>
    level .call (seq [role .callee (choice [identifier, shown .memberExpression decoratorMember]),
      role .arguments arguments])
  | .functionExpression =>
    level .literal (seq [opt "async", "function", role .name (opt identifier), callSignature,
      role .body statementBlock])
  | .functionDeclaration =>
    rightLevel .declaration (seq [opt "async", "function", role .name identifier, callSignature,
      role .body statementBlock, opt automaticSemicolon])
  | .generatorExpression =>
    level .literal (seq [opt "async", "function", "*", role .name (opt identifier), callSignature,
      role .body statementBlock])
  | .generatorDeclaration =>
    rightLevel .declaration (seq [opt "async", "function", "*", role .name identifier,
      callSignature, role .body statementBlock, opt automaticSemicolon])
  | .arrowFunction =>
    seq [opt "async",
      choice [role .parameter (choice [shown .identifier softKeyword, identifier]),
        callSignature], "=>", role .body (choice [expression, statementBlock])]
  | .callSignature => role .parameters formalParameters
  | .formalParameters => seq ["(", opt (seq [commas1 formalParameter, opt ","]), ")"]
  | .formalParameter => choice [pattern, assignmentPattern]
  | .methodDefinition =>
    seq [many decorator, opt (choice ["static", staticGet]), opt "async",
      opt (choice ["get", "set", "*"]), role .name propertyName,
      role .parameters formalParameters, role .body statementBlock]
  | .propertyName =>
    anyWord (choice [shown .propertyIdentifier (choice [identifier, softKeyword]),
      privateIdentifier, string, number, computedName])
  | .computedName => seq ["[", expression, "]"]
  | .pattern => weighted (-1) (choice [target, restPattern])
  | .restPattern => rightGrouped (seq ["...", target])
  | .destructuringPattern => choice [objectPattern, arrayPattern]
  | .objectPattern =>
    level .object (seq ["\x7b",
      commas (opt (choice [pairPattern, restPattern, objectAssignmentPattern,
        shown .shorthandPattern (choice [identifier, softKeyword])])), "\x7d"])
  | .pairPattern =>
    seq [role .key propertyName, ":", role .value (choice [pattern, assignmentPattern])]
  | .objectAssignmentPattern =>
    seq [
      role .left (choice [shown .shorthandPattern (choice [softKeyword, identifier]),
        destructuringPattern]), "=", expression]
  | .arrayPattern => seq ["[", commas (opt (choice [pattern, assignmentPattern])), "]"]
  | .assignmentPattern => seq [role .left pattern, "=", expression]
  | .initializer => seq ["=", role .value expression]
  | _ => none

end CodeAtlas.Script.Kind
