/-!
# Kinds of nodes

A kind names the phrases that one rule of the grammar describes, or the lexemes of one class.
Hidden kinds shape the grammar only: their nodes never stand in a tree. Where a text can be read in
two ways, the way whose first differing node has the earlier kind in the list below is preferred.
-/

namespace CodeAtlas.Script

inductive Kind where
  | token | blank
  -- lexemes
  | identifier | hashBang | escapeSequence | comment | markupComment | regexPattern | regexEnd
  | regexFlags | number | privateIdentifier | doubleQuotedText | singleQuotedText
  | doubleAttributeText | singleAttributeText | characterReference | jsxIdentifier | jsxText
  | staticGet | automaticSemicolon | signatureSemicolon | templateText | ternaryMark | endOfText
  -- lexemes and phrases shown under another name
  | stringText | propertyIdentifier | shorthandIdentifier | shorthandPattern | statementLabel
  | typeIdentifier | thisType | interfaceBody
  -- phrases
  | program | exportStatement | namespaceExport | exportClause | exportSpecifier | moduleName
  | declaration | importWord | importStatement | importClause | fromClause | namespaceImport
  | namedImports | importSpecifier | importAttribute | statement | expressionStatement
  | variableDeclaration | lexicalDeclaration | variableDeclarator | statementBlock | elseClause
  | ifStatement | switchStatement | forStatement | forInStatement | forHeader | whileStatement
  | doStatement | tryStatement | withStatement | breakStatement | continueStatement
  | debuggerStatement | returnStatement | throwStatement | emptyStatement | labeledStatement
  | switchBody | switchCase | switchDefault | catchClause | finallyClause | parenthesized
  | expressions | expression | primaryExpression | yieldExpression | object | objectPattern
  | assignmentPattern | objectAssignmentPattern | array | arrayPattern | jsxItem | jsxElement
  | jsxExpression | jsxChild | jsxOpening | jsxName | nestedIdentifier | jsxNamespaceName
  | jsxElementName | jsxClosing | jsxSelfClosing | jsxAttributeItem | jsxAttributeName
  | jsxAttribute | jsxString | jsxAttributeValue | classExpression | classDeclaration
  | classHeritage | functionExpression | functionDeclaration | generatorExpression
  | generatorDeclaration | arrowFunction | callSignature | formalParameter | optionalChain
  | callExpression | newExpression | awaitExpression | memberExpression | subscriptExpression
  | target | assignment | augmentedTarget | augmentedAssignment | initializer
  | destructuringPattern | spreadElement | ternary | binary | unary | update | commaSequence
  | string | templateString | templateSubstitution | regex | plainName | undefinedWord
  | metaProperty | thisWord | superWord | trueWord | falseWord | nullWord | arguments | decorator
  | decoratorMember | decoratorCall | classBody | fieldDefinition | formalParameters | staticBlock
  | pattern | restPattern | methodDefinition | pair | pairPattern | propertyName | computedName
  | softKeyword | semicolon
  -- phrases of the typed dialects
  | typedField | jsxOpeningStart | importName | nonNull | methodSignature
  | abstractMethodSignature | functionSignature | decoratorParenthesized | typeAssertion
  | asExpression | satisfiesExpression | instantiation | importRequireClause | extendsClause
  | heritageItem | implementsClause | ambientDeclaration | abstractClassDeclaration
  | moduleDeclaration | namespaceDeclaration | moduleBody | importAlias | nestedTypeIdentifier
  | interfaceDeclaration | extendsTypeClause | enumDeclaration | enumBody | enumAssignment
  | typeAliasDeclaration | accessibilityModifier | overrideModifier | requiredParameter
  | optionalParameter | parameterName | omittingTypeNote | addingTypeNote
  | optingTypeNote | typeNote | annotationMember | annotationCall | assertion
  | assertionNote | typeTerm | tupleParameter | optionalTupleParameter | optionalType
  | restType | tupleMember | constructorType | primaryType | templateType | templateLiteralType
  | inferType | conditionalType | genericType | typePredicate | typePredicateNote
  | queryMember | querySubscript | queryCall | queryInstantiation | typeQuery | keyType
  | lookupType | mappedTypeClause | literalType | signedNumber | wildcardType | maybeType
  | parenthesizedType | predefinedType | typeArguments | objectType | callMember
  | propertySignature | typeParameters | typeParameter | defaultType | typeConstraint
  | constructSignature | indexSignature | arrayType | tupleType | readonlyType | unionType
  | intersectionType | functionType | typeName
deriving DecidableEq, Repr, Inhabited

namespace Kind

/-- Punctuation, keywords and blanks are anonymous; every other node, comments included, is named. -/
def named : Kind → Bool
  | token | blank | regexEnd | staticGet | ternaryMark => false
  | _ => true

/-- Kinds whose parts stand in the tree in their place. -/
def hidden : Kind → Bool
  | automaticSemicolon | signatureSemicolon | endOfText | moduleName | declaration | fromClause
  | statement | forHeader | expressions | expression | primaryExpression | jsxItem | jsxChild
  | jsxName | jsxElementName | jsxAttributeItem | jsxAttributeName | jsxString
  | jsxAttributeValue | callSignature | formalParameter | target | augmentedTarget | initializer
  | destructuringPattern | plainName | pattern | propertyName | softKeyword | semicolon
  | jsxOpeningStart | importName | heritageItem | moduleBody | parameterName | annotationMember
  | annotationCall | typeTerm | tupleMember | primaryType | queryMember | querySubscript
  | queryCall | queryInstantiation | signedNumber | typeName => true
  | _ => false

end Kind

inductive Role where
  | source | name | aliasName | callee | arguments | value | left | parameters | parameter | body
  | pattern | key | initializer | keyword
deriving DecidableEq, Repr, Inhabited

end CodeAtlas.Script
