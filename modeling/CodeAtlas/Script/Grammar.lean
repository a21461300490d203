import CodeAtlas.Script.Grammar.Expressions
import CodeAtlas.Script.Grammar.Functions
import CodeAtlas.Script.Grammar.Markup
import CodeAtlas.Script.Grammar.Statements
import CodeAtlas.Script.Grammar.TypedExpressions
import CodeAtlas.Script.Grammar.TypedFunctions
import CodeAtlas.Script.Grammar.TypedStatements
import CodeAtlas.Script.Grammar.Types

/-!
# The grammars

A grammar is a rule for each kind of phrase, with the order of the ranks that its rules use.
-/

namespace CodeAtlas.Script

inductive Dialect where
  | javascript | typescript | tsx
deriving DecidableEq, Repr, Inhabited

inductive Binding where
  | level (l : Level)
  | kind (k : Kind)
deriving DecidableEq, Repr

structure Grammar where
  /-- Kinds without a rule are those of lexemes. -/
  rule? : Kind → Option Rule
  /-- Kinds whose rule stands for them wherever they are mentioned. -/
  inlined : List Kind
  /-- Each list goes from what binds first to what binds last; the first list that mentions both
  sides decides. -/
  order : List (List Binding)
  /-- Words that are never names, save where the rules admit any word. -/
  reserved : List String
  /-- Whether semicolons and question marks follow the rules of the typed dialects. -/
  typed : Bool

namespace Grammar

def commonOrder : List (List Binding) :=
  [[.level .member, .level .templateCall, .level .call, .kind .update, .level .unaryWord,
    .level .power, .level .times, .level .plus, .level .shift, .level .relation, .level .equality,
    .level .bitAnd, .level .bitXor, .level .bitOr, .level .logicalAnd, .level .logicalOr,
    .level .ternary, .kind .commaSequence, .kind .arrowFunction],
   [.level .assign, .kind .primaryExpression],
   [.level .member, .level .templateCall, .level .construct, .level .call, .kind .expression],
   [.level .declaration, .level .literal],
   [.kind .primaryExpression, .kind .statementBlock, .level .object],
   [.kind .metaProperty, .kind .importWord],
   [.kind .importStatement, .kind .importWord],
   [.kind .exportStatement, .kind .primaryExpression],
   [.kind .lexicalDeclaration, .kind .primaryExpression]]

def typedOrder : List (List Binding) :=
  [[.level .call, .level .instantiation, .level .unary, .level .cast, .kind .awaitExpression,
    .kind .arrowFunction],
   [.level .heritage, .level .instantiation],
   [.kind .intersectionType, .kind .unionType, .kind .conditionalType, .kind .functionType,
    .level .cast, .kind .typePredicate, .kind .readonlyType],
   [.kind .mappedTypeClause, .kind .primaryExpression],
   [.kind .accessibilityModifier, .kind .primaryExpression],
   [.level .unaryWord, .kind .expression],
   [.kind .extendsClause, .kind .primaryExpression],
   [.level .unary, .level .assign],
   [.level .declaration, .kind .expression],
   [.kind .predefinedType, .kind .unary],
   [.kind .typeTerm, .kind .maybeType],
   [.kind .tupleType, .kind .arrayType, .kind .pattern, .kind .typeTerm],
   [.kind .readonlyType, .kind .pattern],
   [.kind .readonlyType, .kind .primaryExpression],
   [.kind .typeQuery, .kind .subscriptExpression, .kind .expression],
   [.kind .typeQuery, .kind .querySubscript],
   [.kind .nestedTypeIdentifier, .kind .genericType, .kind .primaryType, .kind .lookupType,
    .kind .keyType, .kind .typeTerm],
   [.kind .asExpression, .kind .satisfiesExpression, .kind .primaryType],
   [.kind .queryMember, .kind .memberExpression],
   [.kind .memberExpression, .kind .annotationMember],
   [.kind .queryMember, .kind .primaryExpression],
   [.kind .querySubscript, .kind .subscriptExpression],
   [.kind .querySubscript, .kind .primaryExpression],
   [.kind .queryCall, .kind .primaryExpression],
   [.kind .queryInstantiation, .kind .primaryExpression],
   [.kind .typeQuery, .kind .primaryExpression],
   [.kind .overrideModifier, .kind .primaryExpression],
   [.kind .decoratorCall, .kind .decorator],
   [.kind .literalType, .kind .pattern],
   [.kind .predefinedType, .kind .pattern],
   [.kind .callExpression, .kind .queryCall],
   [.kind .callExpression, .kind .annotationCall],
   [.kind .newExpression, .kind .primaryExpression],
   [.kind .metaProperty, .kind .primaryExpression],
   [.kind .constructSignature, .kind .propertyName]]

def commonInlined : List Kind :=
  [.expressions, .semicolon, .plainName, .softKeyword, .jsxAttributeItem, .jsxElementName,
   .jsxChild, .jsxItem, .jsxAttributeName, .jsxAttributeValue, .jsxName, .target]

def reservedWords : List String :=
  ["break", "case", "catch", "class", "const", "continue", "debugger", "default", "delete", "do",
   "else", "export", "extends", "false", "finally", "for", "function", "if", "import", "in",
   "instanceof", "new", "null", "return", "super", "switch", "this", "throw", "true", "try",
   "typeof", "var", "void", "while", "with"]

def plainRule? (k : Kind) : Option Rule :=
  k.statementRule? <|> k.expressionRule? <|> k.functionRule? <|> k.markupRule?

def plain : Grammar where
  rule? := plainRule?
  inlined := commonInlined ++ [.callSignature, .formalParameter]
  order := commonOrder
  reserved := reservedWords
  typed := false

/-- In the typed dialects a keyword is reserved only where a rule could take it. -/
def withTypes (markup : Bool) : Grammar where
  rule? k :=
    k.typedStatementRule? <|> k.typedExpressionRule? markup <|> k.typedFunctionRule?
      <|> k.typeRule? <|> plainRule? k
  inlined := commonInlined ++ [.typeName, .jsxOpeningStart]
  order := commonOrder ++ typedOrder
  reserved := []
  typed := true

def ofDialect : Dialect → Grammar
  | .javascript => plain
  | .typescript => withTypes false
  | .tsx => withTypes true

end Grammar

end CodeAtlas.Script
