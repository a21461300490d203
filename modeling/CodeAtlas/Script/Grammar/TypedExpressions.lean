import CodeAtlas.Script.Rule

/-!
# Expressions of the typed dialects

Casts, assertions and explicit type arguments.
-/

namespace CodeAtlas.Script.Kind

open Rule

def typedOperandRule? : Kind → Option Rule
  | .parenthesized => seq ["(", choice [seq [expression, opt typeNote], commaSequence], ")"]
  | .primaryExpression =>
    choice [subscriptExpression, memberExpression, parenthesized, plainName,
      shown .identifier softKeyword, thisWord, superWord, number, string, templateString, regex,
      trueWord, falseWord, nullWord, object, array, functionExpression, arrowFunction,
      generatorExpression, classExpression, metaProperty, callExpression, nonNull]
  | .callExpression =>
    choice [
      level .call (seq [role .callee (choice [expression, importWord]), opt typeArguments,
        role .arguments arguments]),
      level .templateCall (seq [role .callee (choice [primaryExpression, newExpression]),
        role .arguments templateString]),
      level .member (seq [role .callee primaryExpression, "?.", opt typeArguments,
        role .arguments arguments])]
  | .newExpression =>
    rightLevel .construct (seq ["new", primaryExpression, opt typeArguments,
      role .arguments (opt arguments)])
  | .target =>
    choice [memberExpression, subscriptExpression, plainName, shown .identifier softKeyword,
      destructuringPattern, nonNull]
  | .augmentedTarget =>
    choice [memberExpression, subscriptExpression, shown .identifier softKeyword, identifier,
      parenthesized, nonNull]
  | .nonNull => leftLevel .unary (seq [expression, "!"])
  | .typeAssertion => leftLevel .unary (seq [typeArguments, expression])
  | .asExpression => leftLevel .cast (seq [expression, "as", choice ["const", typeTerm]])
  | .satisfiesExpression => leftLevel .cast (seq [expression, "satisfies", typeTerm])
  | .instantiation => level .instantiation (seq [expression, typeArguments])
  | .softKeyword =>
    choice ["declare", "namespace", "type", "public", "private", "protected", "override",
      "readonly", "module", "any", "number", "boolean", "string", "symbol", "export", "object",
      "new", "readonly", "get", "set", "async", "static", "export", "let"]
  | .jsxOpening => weighted (-1) (seq [jsxOpeningStart, ">"])
  | .jsxSelfClosing => weighted (-1) (seq [jsxOpeningStart, "/>"])
  | .jsxOpeningStart =>
    seq ["<",
      opt (seq [
        choice [role .name (choice [jsxName, jsxNamespaceName]),
          seq [role .name (choice [identifier, shown .memberExpression nestedIdentifier]),
            opt typeArguments]], many jsxAttributeItem])]
  | _ => none

/-- An expression that starts with a tag is an element where markup is read, and a type assertion
elsewhere. -/
def typedExpressionRule? (markup : Bool) : Kind → Option Rule
  | .expression =>
    choice [asExpression, satisfiesExpression, instantiation, namespaceDeclaration,
      if markup then jsxItem else typeAssertion, primaryExpression, assignment,
      augmentedAssignment, awaitExpression, unary, binary, ternary, update, newExpression,
      yieldExpression]
  | k => typedOperandRule? k

end CodeAtlas.Script.Kind
