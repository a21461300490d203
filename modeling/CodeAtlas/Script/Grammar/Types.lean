import CodeAtlas.Script.Rule

/-!
# Types

The terms that stand for types, and the annotations that attach them.
-/

namespace CodeAtlas.Script.Kind

open Rule

def typeRule? : Kind → Option Rule
  | .nestedTypeIdentifier =>
    level .member (seq [choice [identifier, nestedIdentifier], ".", role .name typeName])
  | .omittingTypeNote => seq ["-?:", typeTerm]
  | .addingTypeNote => seq ["+?:", typeTerm]
  | .optingTypeNote => seq ["?:", typeTerm]
  | .typeNote =>
    seq [":",
      choice [typeTerm, shown .memberExpression annotationMember,
        shown .callExpression annotationCall]]
  | .annotationMember =>
    seq [
      choice [importWord, shown .memberExpression annotationMember,
        shown .callExpression annotationCall], ".",
      choice [privateIdentifier, shown .propertyIdentifier identifier]]
  | .annotationCall =>
    seq [role .callee (choice [importWord, shown .memberExpression annotationMember]),
      role .arguments arguments]
  | .assertion => seq ["asserts", choice [typePredicate, identifier, thisWord]]
  | .assertionNote => seq [":", assertion]
  | .typeTerm =>
    choice [primaryType, functionType, readonlyType, constructorType, inferType,
      numbered (-1) (shown .memberExpression annotationMember),
      numbered (-1) (shown .callExpression annotationCall)]
  | .tupleParameter => seq [role .name (choice [identifier, restPattern]), typeNote]
  | .optionalTupleParameter => seq [role .name identifier, "?", typeNote]
  | .optionalType => seq [typeTerm, "?"]
  | .restType => seq ["...", typeTerm]
  | .tupleMember =>
    choice [shown .requiredParameter tupleParameter,
      shown .optionalParameter optionalTupleParameter, optionalType, restType, typeTerm]
  | .constructorType =>
    leftGrouped (seq [opt "abstract", "new", opt typeParameters,
      role .parameters formalParameters, "=>", typeTerm])
  | .primaryType =>
    choice [parenthesizedType, predefinedType, typeName, nestedTypeIdentifier, genericType,
      objectType, arrayType, tupleType, maybeType, typeQuery, keyType, shown .thisType thisWord,
      wildcardType, literalType, lookupType, conditionalType, templateLiteralType,
      intersectionType, unionType, "const"]
  | .templateType => seq ["$\x7b", choice [primaryType, inferType], "\x7d"]
  | .templateLiteralType =>
    seq ["`", many (choice [shown .stringText templateText, templateType]), "`"]
  | .inferType => rightGrouped (seq ["infer", typeName, opt (seq ["extends", typeTerm])])
  | .conditionalType =>
    rightGrouped (seq [role .left typeTerm, "extends", typeTerm, "?", typeTerm, ":", typeTerm])
  | .genericType =>
    level .call (seq [role .name (choice [typeName, nestedTypeIdentifier]), typeArguments])
  | .typePredicate =>
    seq [role .name (choice [identifier, thisWord, shown .identifier predefinedType]), "is",
      typeTerm]
  | .typePredicateNote => seq [":", typePredicate]
  | .queryMember =>
    seq [
      choice [identifier, thisWord, shown .subscriptExpression querySubscript,
        shown .memberExpression queryMember, shown .callExpression queryCall], choice [".", "?."],
      choice [privateIdentifier, shown .propertyIdentifier identifier]]
  | .querySubscript =>
    seq [
      choice [identifier, thisWord, shown .subscriptExpression querySubscript,
        shown .memberExpression queryMember, shown .callExpression queryCall], opt "?.", "[",
      choice [predefinedType, string, number], "]"]
  | .queryCall =>
    seq [
      role .callee (choice [importWord, identifier, shown .memberExpression queryMember,
        shown .subscriptExpression querySubscript]), role .arguments arguments]
  | .queryInstantiation =>
    seq [
      role .callee (choice [importWord, identifier, shown .memberExpression queryMember,
        shown .subscriptExpression querySubscript]), typeArguments]
  | .typeQuery =>
    rightGrouped (seq ["typeof",
      choice [shown .subscriptExpression querySubscript, shown .memberExpression queryMember,
        shown .callExpression queryCall, shown .instantiation queryInstantiation, identifier,
        thisWord]])
  | .keyType => seq ["keyof", primaryType]
  | .lookupType => seq [primaryType, "[", typeTerm, "]"]
  | .mappedTypeClause =>
    seq [role .name typeName, "in", typeTerm, opt (seq ["as", role .aliasName typeTerm])]
  | .literalType =>
    choice [shown .unary signedNumber, number, string, trueWord, falseWord, nullWord,
      undefinedWord]
  | .signedNumber => leftNumbered 1 (seq [choice ["-", "+"], number])
  | .wildcardType => mark "*"
  | .maybeType => rightGrouped (seq ["?", primaryType])
  | .parenthesizedType => seq ["(", typeTerm, ")"]
  | .predefinedType =>
    choice ["any", "number", "boolean", "string", "symbol", seq ["unique", "symbol"], "void",
      "unknown", "never", "object"]
  | .typeArguments => seq ["<", commas1 typeTerm, opt ",", ">"]
  | .objectType =>
    seq [choice ["\x7b", "\x7b|"],
      opt (seq [opt (choice [",", ";"]),
        choice [exportStatement, propertySignature, callMember, constructSignature,
          indexSignature, methodSignature],
        many (seq [choice [",", semicolon],
          choice [exportStatement, propertySignature, callMember, constructSignature,
            indexSignature, methodSignature]]), opt (choice [",", semicolon])]),
      choice ["\x7d", "|\x7d"]]
  | .callMember => callSignature
  | .propertySignature =>
    seq [opt accessibilityModifier, opt "static", opt overrideModifier, opt "readonly",
      role .name propertyName, opt "?", opt typeNote]
  | .typeParameters => seq ["<", commas1 typeParameter, opt ",", ">"]
  | .typeParameter =>
    seq [opt "const", role .name typeName, opt typeConstraint, role .value (opt defaultType)]
  | .defaultType => seq ["=", typeTerm]
  | .typeConstraint => seq [choice ["extends", ":"], typeTerm]
  | .constructSignature =>
    seq [opt "abstract", "new", opt typeParameters, role .parameters formalParameters,
      opt typeNote]
  | .indexSignature =>
    seq [opt (seq [opt (choice ["-", "+"]), "readonly"]), "[",
      choice [
        seq [role .name (choice [identifier, shown .identifier softKeyword]), ":", typeTerm],
        mappedTypeClause], "]",
      choice [typeNote, omittingTypeNote, addingTypeNote, optingTypeNote]]
  | .arrayType => seq [primaryType, "[", "]"]
  | .tupleType => seq ["[", commas tupleMember, opt ",", "]"]
  | .readonlyType => seq ["readonly", typeTerm]
  | .unionType => leftGrouped (seq [opt typeTerm, "|", typeTerm])
  | .intersectionType => leftGrouped (seq [opt typeTerm, "&", typeTerm])
  | .functionType =>
    leftGrouped (seq [opt typeParameters, role .parameters formalParameters, "=>",
      choice [typeTerm, assertion, typePredicate]])
  | .typeName => shown .typeIdentifier identifier
  | _ => none

end CodeAtlas.Script.Kind
