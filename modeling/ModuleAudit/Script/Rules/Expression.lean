import ModuleAudit.Script.Rules.Statement

/-
Rules of expressions, and of the patterns that look like them.
-/

namespace ModuleAudit
namespace Script
namespace Rules

open Construct

/-- The binary operators with their levels.  All group to the left but the last one. -/
def operators : List (Level × List String) :=
  [(.logicalAnd, ["&&"]), (.logicalOr, ["||"]), (.binaryShift, [">>", ">>>", "<<"]),
    (.bitwiseAnd, ["&"]), (.bitwiseXor, ["^"]), (.bitwiseOr, ["|"]), (.binaryPlus, ["+", "-"]),
    (.binaryTimes, ["*", "/", "%"]), (.binaryRelation, ["<", "<="]),
    (.binaryEquality, ["==", "===", "!=", "!=="]), (.binaryRelation, [">=", ">", "instanceof"]),
    (.choice, ["??"])]

/-- Operations of one level, with any of some operators between the operands. -/
def operation (level : Level) (spellings : List String) : Rule :=
  oneOf (spellings.map fun op => .leftLevel level (seq [expression, .token (.text op), expression]))

def binaryRule : Rule :=
  oneOf [oneOf (operators.map fun (level, ops) => operation level ops),
    .rightLevel .binaryExp (seq [expression, "**", expression]),
    .leftLevel .binaryRelation (seq [oneOf [expression, Token.privateName], "in", expression])]

/-- A question mark and a dot, a construct of its own in typed dialects. -/
def chain (d : Dialect) : Rule := if d.typed then optionalChain else "?."

/-- Where a name follows a dot, every word is one. -/
def memberName (d : Dialect) : Rule :=
  oneOf [Token.privateName, if d.typed then name else .anyName name]

def callRule (d : Dialect) : Rule :=
  let types := given d.typed (opt typeArguments)
  oneOf [.level .call (seq [oneOf [expression, importWord], types, arguments]),
    .level .templateCall (seq [oneOf [primaryExpression, newExpression], template]),
    .level .member (seq [primaryExpression, "?.", types, arguments])]

def newRule (d : Dialect) : Rule :=
  if d.typed then
    .rightLevel .new (seq ["new", primaryExpression, opt typeArguments, opt arguments])
  else
    .rightLevel .new
      (seq ["new", oneOf [primaryExpression, newExpression], opt (.scored 1 arguments)])

/-- Parameters of a function and what it says about its result. -/
def signature (d : Dialect) : Rule := if d.typed then callSignature else formalParameters

def parameter (d : Dialect) : Rule :=
  if d.typed then formalParameter else oneOf [pattern, assignmentPattern]

/-- A function, with the star of a generator if it is one. -/
def functionRule (d : Dialect) (star called close : Rule) : Rule :=
  seq [opt "async", "function", star, called, signature d, statementBlock, close]

/-- Names and expressions with nothing in front of them. -/
def primaries (d : Dialect) : Rule :=
  oneOf [subscriptExpression, memberExpression, parenthesizedExpression, "undefined", name,
    softWords d, "this", "super", Token.number, string, template, regex, "true", "false", "null",
    object, array, functionExpression, arrowFunction, generatorFunction, classExpression,
    metaProperty, callExpression, only d.typed nonNullExpression]

/-- An element of markup. -/
def markup : Rule := oneOf [element, selfClosingElement]

def expressionRule (d : Dialect) : Rule :=
  oneOf [only d.typed (oneOf [asExpression, satisfiesExpression, instantiation, innerModule]),
    only (d.typed && !d.markup) typeAssertion, primaryExpression, only d.markup markup,
    assignmentExpression, updatingAssignment, awaitExpression, unaryExpression, binaryExpression,
    choiceExpression, updateExpression, newExpression, yieldExpression]

/-- Names of the members of objects and classes; every word is one. -/
def propertyRule (d : Dialect) : Rule :=
  let names : Rule :=
    oneOf [name, softWords d, Token.privateName, string, Token.number, computedName]
  if d.typed then names else .anyName names

def updatingOperators : List String :=
  ["+=", "-=", "*=", "/=", "%=", "^=", "&=", "|=", ">>=", ">>>=", "<<=", "**=", "&&=", "||=",
    "??="]

def expressionEntries (d : Dialect) : List Entry :=
  [(parenthesizedExpression,
      seq ["(", if d.typed then oneOf [seq [expression, opt typeMark], sequenceExpression]
        else expressions, ")"]),
    (expression, expressionRule d),
    (primaryExpression, primaries d),
    (yieldExpression, .right (seq ["yield", oneOf [seq ["*", expression], opt expression]])),
    (object,
      .level .object (braced (commas (opt
        (oneOf [pair, spreadElement, methodDefinition, name, softWords d]))))),
    (objectPattern,
      .level .object (braced (commas (opt
        (oneOf [pairPattern, restPattern, objectAssignmentPattern, name, softWords d]))))),
    (assignmentPattern, seq [pattern, "=", expression]),
    (objectAssignmentPattern,
      seq [oneOf [softWords d, name, destructuringPattern], "=", expression]),
    (array, seq ["[", commas (opt (oneOf [expression, spreadElement])), "]"]),
    (arrayPattern, seq ["[", commas (opt (oneOf [pattern, assignmentPattern])), "]"]),
    (nestedName, .level .member (seq [oneOf [name, nestedName], ".", name])),
    (functionExpression, .level .literal (functionRule d .empty (opt name) .empty)),
    (functionDeclaration, .rightLevel .declare (functionRule d .empty name supplied)),
    (generatorFunction, .level .literal (functionRule d "*" (opt name) .empty)),
    (generatorDeclaration, .rightLevel .declare (functionRule d "*" name supplied)),
    (arrowFunction,
      seq [opt "async", oneOf [softWords d, name, signature d], "=>",
        oneOf [expression, statementBlock]]),
    (callExpression, callRule d),
    (newExpression, newRule d),
    (awaitExpression, .level .unaryVoid (seq ["await", expression])),
    (memberExpression,
      .level .member
        (seq [oneOf [expression, primaryExpression, importWord], oneOf [".", chain d],
          memberName d])),
    (subscriptExpression,
      .rightLevel .member
        (seq [oneOf [expression, primaryExpression], opt (chain d), "[", expressions, "]"])),
    (assignmentExpression,
      .rightLevel .assign
        (seq [given d.typed (opt "using"), oneOf [parenthesizedExpression, assignable d], "=",
          expression])),
    (updatedTarget,
      oneOf [memberExpression, subscriptExpression, softWords d, name, parenthesizedExpression,
        only d.typed nonNullExpression]),
    (updatingAssignment,
      .rightLevel .assign (seq [updatedTarget, oneWord updatingOperators, expression])),
    (initializer, seq ["=", expression]),
    (destructuringPattern, oneOf [objectPattern, arrayPattern]),
    (spreadElement, seq ["...", expression]),
    (choiceExpression,
      .rightLevel .choice (seq [expression, Token.choiceMark, expression, ":", expression])),
    (binaryExpression, binaryRule),
    (unaryExpression,
      .leftLevel .unaryVoid
        (seq [oneOf ["!", "~", "-", "+", "typeof", "void", "delete"], expression])),
    (updateExpression,
      .left (oneOf [seq [expression, oneOf ["++", "--"]], seq [oneOf ["++", "--"], expression]])),
    (sequenceExpression, .right (commas1 expression)),
    (metaProperty, oneOf [seq ["new", ".", "target"], seq ["import", ".", "meta"]]),
    (arguments, seq ["(", commas (opt (oneOf [expression, spreadElement])), ")"]),
    (formalParameters, seq ["(", opt (seq [commas1 (parameter d), opt ","]), ")"]),
    (pattern, .scored (-1) (oneOf [assignable d, restPattern])),
    (restPattern, .right (seq ["...", assignable d])),
    (pair, seq [propertyName, ":", expression]),
    (pairPattern, seq [propertyName, ":", oneOf [pattern, assignmentPattern]]),
    (propertyName, propertyRule d),
    (computedName, seq ["[", expression, "]"])]

/-- Expressions that only typed dialects have. -/
def typedExpressions : List Entry :=
  [(optionalChain, "?."),
    (nonNullExpression, .leftLevel .unary (seq [expression, "!"])),
    (asExpression, .leftLevel .binary (seq [expression, "as", oneOf ["const", type]])),
    (satisfiesExpression, .leftLevel .binary (seq [expression, "satisfies", type])),
    (instantiation, .level .instantiation (seq [expression, typeArguments]))]

/-- A type in angle brackets in front of an expression, where that is no element. -/
def assertions : List Entry :=
  [(typeAssertion, .leftLevel .unary (seq [typeArguments, expression]))]

end Rules
end Script
end ModuleAudit
