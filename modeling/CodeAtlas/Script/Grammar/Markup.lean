import CodeAtlas.Script.Rule

/-!
# Markup

Elements written as tags. Text between tags and in attributes holds no bare ampersands or braces:
an ampersand starts a character reference.
-/

namespace CodeAtlas.Script.Kind

open Rule

def markupRule? : Kind → Option Rule
  | .jsxItem => choice [jsxElement, jsxSelfClosing]
  | .jsxElement => seq [jsxOpening, many jsxChild, jsxClosing]
  | .jsxExpression =>
    seq ["\x7b", opt (choice [expression, commaSequence, spreadElement]), "\x7d"]
  | .jsxChild => choice [jsxText, characterReference, jsxItem, jsxExpression]
  | .jsxOpening =>
    weighted (-1) (seq ["<", opt (seq [role .name jsxElementName, many jsxAttributeItem]), ">"])
  | .jsxName => choice [shown .identifier jsxIdentifier, identifier]
  | .nestedIdentifier =>
    level .member (seq [choice [identifier, shown .memberExpression nestedIdentifier], ".",
      shown .propertyIdentifier identifier])
  | .jsxNamespaceName => seq [jsxName, ":", jsxName]
  | .jsxElementName =>
    choice [jsxName, shown .memberExpression nestedIdentifier, jsxNamespaceName]
  | .jsxClosing => seq ["</", opt (role .name jsxElementName), ">"]
  | .jsxSelfClosing => seq ["<", role .name jsxElementName, many jsxAttributeItem, "/>"]
  | .jsxAttributeItem => choice [jsxAttribute, jsxExpression]
  | .jsxAttributeName => choice [shown .propertyIdentifier jsxName, jsxNamespaceName]
  | .jsxAttribute => seq [jsxAttributeName, opt (seq ["=", jsxAttributeValue])]
  | .jsxString =>
    choice [
      seq ["\"", many (choice [shown .stringText doubleAttributeText, characterReference]), "\""],
      seq ["'", many (choice [shown .stringText singleAttributeText, characterReference]), "'"]]
  | .jsxAttributeValue => choice [shown .string jsxString, jsxExpression, jsxItem]
  | _ => none

end CodeAtlas.Script.Kind
