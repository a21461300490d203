import CodeAtlas.Script.Rule

/-!
# Functions and classes of the typed dialects

Members with modifiers and types, signatures without a body, and parameters.
-/

namespace CodeAtlas.Script.Kind

open Rule

def typedFunctionRule? : Kind → Option Rule
  | .classExpression =>
    level .literal (seq [many decorator, "class", role .name (opt typeName), opt typeParameters,
      opt classHeritage, role .body classBody])
  | .classDeclaration =>
    leftLevel .declaration (seq [many decorator, "class", role .name typeName, opt typeParameters,
      opt classHeritage, role .body classBody, opt automaticSemicolon])
  | .abstractClassDeclaration =>
    level .declaration (seq [many decorator, "abstract", "class", role .name typeName,
      opt typeParameters, opt classHeritage, role .body classBody])
  | .classHeritage => choice [seq [extendsClause, opt implementsClause], implementsClause]
  | .extendsClause => seq ["extends", commas1 heritageItem]
  | .heritageItem => level .heritage (seq [role .value expression, opt typeArguments])
  | .implementsClause => seq ["implements", commas1 typeTerm]
  | .classBody =>
    seq ["\x7b",
      many (choice [seq [many decorator, methodDefinition, opt semicolon],
        seq [methodSignature, choice [signatureSemicolon, ","]], staticBlock,
        seq [choice [abstractMethodSignature, indexSignature, methodSignature, typedField],
          choice [semicolon, ","]], ";"]), "\x7d"]
  | .typedField =>
    seq [many decorator,
      opt (choice [seq ["declare", opt accessibilityModifier],
        seq [accessibilityModifier, opt "declare"]]),
      choice [seq [opt "static", opt overrideModifier, opt "readonly"],
        seq [opt "abstract", opt "readonly"], seq [opt "readonly", opt "abstract"],
        opt "accessor"], role .name propertyName, opt (choice ["?", "!"]), opt typeNote,
      opt initializer]
  | .methodDefinition =>
    leftGrouped (seq [opt accessibilityModifier, opt "static", opt overrideModifier,
      opt "readonly", opt "async", opt (choice ["get", "set", "*"]), role .name propertyName,
      opt "?", callSignature, role .body statementBlock])
  | .methodSignature =>
    seq [opt accessibilityModifier, opt "static", opt overrideModifier, opt "readonly",
      opt "async", opt (choice ["get", "set", "*"]), role .name propertyName, opt "?",
      callSignature]
  | .abstractMethodSignature =>
    seq [opt accessibilityModifier, "abstract", opt overrideModifier,
      opt (choice ["get", "set", "*"]), role .name propertyName, opt "?", callSignature]
  | .accessibilityModifier => choice ["public", "private", "protected"]
  | .overrideModifier => mark "override"
  | .decorator =>
    seq ["@",
      choice [identifier, shown .memberExpression decoratorMember,
        shown .callExpression decoratorCall, shown .parenthesized decoratorParenthesized]]
  | .decoratorCall =>
    level .call (seq [role .callee (choice [identifier, shown .memberExpression decoratorMember]),
      opt typeArguments, role .arguments arguments])
  | .decoratorParenthesized =>
    seq ["(",
      choice [identifier, shown .memberExpression decoratorMember,
        shown .callExpression decoratorCall], ")"]
  | .callSignature =>
    seq [opt typeParameters, role .parameters formalParameters,
      opt (choice [typeNote, assertionNote, typePredicateNote])]
  | .formalParameter => choice [requiredParameter, optionalParameter]
  | .requiredParameter => seq [parameterName, opt typeNote, opt initializer]
  | .optionalParameter => seq [parameterName, "?", opt typeNote, opt initializer]
  | .parameterName =>
    seq [many decorator, opt accessibilityModifier, opt overrideModifier, opt "readonly",
      role .pattern (choice [pattern, thisWord])]
  | _ => none

end CodeAtlas.Script.Kind
