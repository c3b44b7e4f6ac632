import ModuleAudit.Script.Rules.Expression
import ModuleAudit.Script.Rules.Literal

/-
Rules of markup elements.
-/

namespace ModuleAudit
namespace Script
namespace Rules

open Construct

/-- A name that may have hyphens. -/
def simpleTagName : Rule := oneOf [Token.hyphenatedName, name]

def tagName : Rule := oneOf [simpleTagName, nestedName, namespacedName]

def attributes : Rule := many (oneOf [elementAttribute, elementExpression])

/-- The start of a tag; a typed dialect has type arguments behind plain names, and allows an empty
tag in front of every kind of end. -/
def tagStart (d : Dialect) (nameless : Bool) : Rule :=
  let inner :=
    if d.typed then
      seq [oneOf [simpleTagName, namespacedName,
        seq [oneOf [name, nestedName], opt typeArguments]], attributes]
    else seq [tagName, attributes]
  seq ["<", if nameless then opt inner else inner]

/-- A single tag counts against a reading in typed dialects, where it may be a list of types. -/
def selfClosing (d : Dialect) : Rule :=
  let tag := seq [tagStart d d.typed, "/>"]
  if d.typed then .scored (-1) tag else tag

def elements (d : Dialect) : List Entry :=
  [(element,
      seq [openingTag,
        many (oneOf [Token.elementText, Token.characterReference, markup, elementExpression]),
        closingTag]),
    (elementExpression,
      braced (opt (oneOf [expression, sequenceExpression, spreadElement]))),
    (openingTag, .scored (-1) (seq [tagStart d true, ">"])),
    (namespacedName, seq [simpleTagName, ":", simpleTagName]),
    (closingTag, seq ["</", opt tagName, ">"]),
    (selfClosingElement, selfClosing d),
    (elementAttribute,
      seq [oneOf [simpleTagName, namespacedName],
        opt (seq ["=", oneOf [attributeString, elementExpression, markup]])]),
    (attributeString,
      oneOf [quoted "\"" (oneOf [Token.doubleAttributeFragment, Token.characterReference]),
        quoted "'" (oneOf [Token.singleAttributeFragment, Token.characterReference])])]

end Rules
end Script
end ModuleAudit
