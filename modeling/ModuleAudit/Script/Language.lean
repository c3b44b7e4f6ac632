import ModuleAudit.Script.Rules.Class
import ModuleAudit.Script.Rules.Declaration
import ModuleAudit.Script.Rules.Element
import ModuleAudit.Script.Rules.Exchange
import ModuleAudit.Script.Rules.Types

/-
The language of each dialect: its rules, and the order of the ranks in them.
-/

namespace ModuleAudit
namespace Script
namespace Rules

open Construct

/-- The rules of a dialect, in the order of the constructs. -/
def entries (d : Dialect) : List Entry :=
  let shared := statements d ++ expressionEntries d ++ literals ++ exchange d ++ classes d ++
    declarations d ++ if d.markup then elements d else []
  let own :=
    if d.typed then
      typedClasses d ++ typedExpressions ++ typedExchange ++ typedDeclarations ++ types d ++
        if d.markup then [] else assertions
    else untypedClasses d ++ untypedStatements
  (shared ++ own).mergeSort fun a b => a.1.ctorIdx ≤ b.1.ctorIdx

abbrev Mark := Grammar.Mark Construct Level

instance : Coe Construct Mark := ⟨.of⟩

instance : Coe Level Mark := ⟨.rank⟩

/-- The order of ranks in every dialect. -/
def orders : List (List Mark) :=
  [[Level.member, Level.templateCall, Level.call, updateExpression, Level.unaryVoid,
      Level.binaryExp, Level.binaryTimes, Level.binaryPlus, Level.binaryShift, Level.binaryCompare,
      Level.binaryRelation, Level.binaryEquality, Level.bitwiseAnd, Level.bitwiseXor,
      Level.bitwiseOr, Level.logicalAnd, Level.logicalOr, Level.choice, sequenceExpression,
      arrowFunction],
    [Level.assign, primaryExpression],
    [Level.member, Level.templateCall, Level.new, Level.call, expression],
    [Level.declare, Level.literal],
    [primaryExpression, statementBlock, Level.object],
    [metaProperty, importWord],
    [importStatement, importWord],
    [exportStatement, primaryExpression],
    [lexicalDeclaration, primaryExpression]]

/-- What typed dialects add to the order of ranks, first the ranks with names. -/
def typedOrders : List (List Mark) :=
  [[Level.call, Level.instantiation, Level.unary, Level.binary, awaitExpression, arrowFunction],
    [Level.extends, Level.instantiation],
    [intersectionType, unionType, conditionalType, functionType, Level.binary, typePredicate,
      readonlyType],
    [mappedKey, primaryExpression],
    [accessModifier, primaryExpression],
    [Level.unaryVoid, expression],
    [extendsClause, primaryExpression],
    [Level.unary, Level.assign],
    [Level.declare, expression]]

/-- Whether a text that could be both is read as a type or as an expression. -/
def typeOrders : List (List Mark) :=
  [[predefinedType, unaryExpression],
    [type, maybeType],
    [tupleType, arrayType, pattern, type],
    [readonlyType, pattern],
    [readonlyType, primaryExpression],
    [typeQuery, subscriptExpression, expression],
    [typeQuery, typeQuerySubscript],
    [nestedTypeName, genericType, primaryType, lookupType, keyType, type],
    [asExpression, satisfiesExpression, primaryType],
    [typeQueryMember, memberExpression],
    [memberExpression, importTypeMember],
    [typeQueryMember, primaryExpression],
    [typeQuerySubscript, subscriptExpression],
    [typeQuerySubscript, primaryExpression],
    [typeQueryCall, primaryExpression],
    [typeQueryInstantiation, primaryExpression],
    [typeQuery, primaryExpression]]

/-- Whether a word is a modifier or a name, and what a call in a type is. -/
def wordOrders : List (List Mark) :=
  [[overrideModifier, primaryExpression],
    [decoratorCall, decorator],
    [literalType, pattern],
    [predefinedType, pattern],
    [callExpression, typeQueryCall],
    [callExpression, importTypeCall],
    [newExpression, primaryExpression],
    [metaProperty, primaryExpression],
    [constructSignature, propertyName]]

/-- Words that are never names in the untyped dialect. -/
def reservedWords : List String :=
  ["break", "case", "catch", "class", "const", "continue", "debugger", "default", "delete", "do",
    "else", "export", "extends", "false", "finally", "for", "function", "if", "import", "in",
    "instanceof", "new", "null", "return", "super", "switch", "this", "throw", "true", "try",
    "typeof", "var", "void", "while", "with"]

end Rules

namespace Dialect

open Rules

def language (d : Dialect) : Grammar.Language Token Construct Level where
  rules := entries d
  orders := if d.typed then orders ++ typedOrders ++ typeOrders ++ wordOrders else orders
  finish := .finish
  name := .name
  anyName := .anyName
  reserved := if d.typed then [] else reservedWords.map .text
  extras := [.comment, .markupComment]

end Dialect
end Script
end ModuleAudit
