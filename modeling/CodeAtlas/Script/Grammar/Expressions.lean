import CodeAtlas.Script.Rule

/-!
# Expressions

Operators, calls, members and literals. The rules say nothing about which operator binds first: that
is the order of their levels.
-/

namespace CodeAtlas.Script.Kind

open Rule

def expressionRule? : Kind → Option Rule
  | .importWord => mark "import"
  | .parenthesized => seq ["(", expressions, ")"]
  | .expressions => choice [expression, commaSequence]
  | .expression =>
    choice [primaryExpression, jsxItem, assignment, augmentedAssignment, awaitExpression, unary,
      binary, ternary, update, newExpression, yieldExpression]
  | .primaryExpression =>
    choice [subscriptExpression, memberExpression, parenthesized, plainName,
      shown .identifier softKeyword, thisWord, superWord, number, string, templateString, regex,
      trueWord, falseWord, nullWord, object, array, functionExpression, arrowFunction,
      generatorExpression, classExpression, metaProperty, callExpression]
  | .yieldExpression =>
    rightGrouped (seq ["yield", choice [seq ["*", expression], opt expression]])
  | .object =>
    level .object (seq ["\x7b",
      commas (opt (choice [pair, spreadElement, methodDefinition,
        shown .shorthandIdentifier (choice [identifier, softKeyword])])), "\x7d"])
  | .array => seq ["[", commas (opt (choice [expression, spreadElement])), "]"]
  | .optionalChain => mark "?."
  | .callExpression =>
    choice [
      level .call (seq [role .callee (choice [expression, importWord]),
        role .arguments arguments]),
      level .templateCall (seq [role .callee (choice [primaryExpression, newExpression]),
        role .arguments templateString]),
      level .member (seq [role .callee primaryExpression, optionalChain,
        role .arguments arguments])]
  | .newExpression =>
    rightLevel .construct (seq ["new", choice [primaryExpression, newExpression],
      role .arguments (opt (weighted 1 arguments))])
  | .awaitExpression => level .unaryWord (seq ["await", expression])
  | .memberExpression =>
    level .member (seq [choice [expression, primaryExpression, importWord],
      choice [".", optionalChain],
      choice [privateIdentifier, anyWord (shown .propertyIdentifier identifier)]])
  | .subscriptExpression =>
    rightLevel .member (seq [choice [expression, primaryExpression], opt optionalChain, "[",
      expressions, "]"])
  | .target =>
    choice [memberExpression, subscriptExpression, plainName, shown .identifier softKeyword,
      destructuringPattern]
  | .assignment =>
    rightLevel .assign (seq [opt "using", role .left (choice [parenthesized, target]), "=",
      expression])
  | .augmentedTarget =>
    choice [memberExpression, subscriptExpression, shown .identifier softKeyword, identifier,
      parenthesized]
  | .augmentedAssignment =>
    rightLevel .assign (seq [role .left augmentedTarget,
      choice ["+=", "-=", "*=", "/=", "%=", "^=", "&=", "|=", ">>=", ">>>=", "<<=", "**=", "&&=",
        "||=", "??="], expression])
  | .spreadElement => seq ["...", expression]
  | .ternary => rightLevel .ternary (seq [expression, ternaryMark, expression, ":", expression])
  | .binary =>
    choice [leftLevel .logicalAnd (seq [role .left expression, "&&", expression]),
      leftLevel .logicalOr (seq [role .left expression, "||", expression]),
      leftLevel .shift (seq [role .left expression, ">>", expression]),
      leftLevel .shift (seq [role .left expression, ">>>", expression]),
      leftLevel .shift (seq [role .left expression, "<<", expression]),
      leftLevel .bitAnd (seq [role .left expression, "&", expression]),
      leftLevel .bitXor (seq [role .left expression, "^", expression]),
      leftLevel .bitOr (seq [role .left expression, "|", expression]),
      leftLevel .plus (seq [role .left expression, "+", expression]),
      leftLevel .plus (seq [role .left expression, "-", expression]),
      leftLevel .times (seq [role .left expression, "*", expression]),
      leftLevel .times (seq [role .left expression, "/", expression]),
      leftLevel .times (seq [role .left expression, "%", expression]),
      rightLevel .power (seq [role .left expression, "**", expression]),
      leftLevel .relation (seq [role .left expression, "<", expression]),
      leftLevel .relation (seq [role .left expression, "<=", expression]),
      leftLevel .equality (seq [role .left expression, "==", expression]),
      leftLevel .equality (seq [role .left expression, "===", expression]),
      leftLevel .equality (seq [role .left expression, "!=", expression]),
      leftLevel .equality (seq [role .left expression, "!==", expression]),
      leftLevel .relation (seq [role .left expression, ">=", expression]),
      leftLevel .relation (seq [role .left expression, ">", expression]),
      leftLevel .ternary (seq [role .left expression, "??", expression]),
      leftLevel .relation (seq [role .left expression, "instanceof", expression]),
      leftLevel .relation (seq [role .left (choice [expression, privateIdentifier]), "in",
        expression])]
  | .unary =>
    leftLevel .unaryWord (seq [choice ["!", "~", "-", "+", "typeof", "void", "delete"],
      expression])
  | .update =>
    leftGrouped (choice [seq [expression, choice ["++", "--"]],
      seq [choice ["++", "--"], expression]])
  | .commaSequence => rightGrouped (commas1 expression)
  | .string =>
    choice [seq ["\"", many (choice [shown .stringText doubleQuotedText, escapeSequence]), "\""],
      seq ["'", many (choice [shown .stringText singleQuotedText, escapeSequence]), "'"]]
  | .templateString =>
    seq ["`",
      many (choice [shown .stringText templateText, escapeSequence, templateSubstitution]), "`"]
  | .templateSubstitution => seq ["$\x7b", expressions, "\x7d"]
  | .regex => seq ["/", role .pattern regexPattern, regexEnd, opt regexFlags]
  | .plainName => choice [undefinedWord, identifier]
  | .undefinedWord => mark "undefined"
  | .metaProperty => choice [seq ["new", ".", "target"], seq ["import", ".", "meta"]]
  | .thisWord => mark "this"
  | .superWord => mark "super"
  | .trueWord => mark "true"
  | .falseWord => mark "false"
  | .nullWord => mark "null"
  | .arguments => seq ["(", commas (opt (choice [expression, spreadElement])), ")"]
  | .pair => seq [role .key propertyName, ":", role .value expression]
  | .softKeyword => choice ["get", "set", "async", "static", "export", "let"]
  | _ => none

end CodeAtlas.Script.Kind
