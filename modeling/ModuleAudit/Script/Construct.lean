/-
The constructs of scripts.

The order counts: of two readings of a text that are equal in every other respect, the one whose
constructs come earlier in this list is kept.  The constructs of the second half have to do with
types and occur in typed dialects only.
-/

namespace ModuleAudit
namespace Script

inductive Construct where
  | program
  | exportStatement
  | namespaceExport
  | exportClause
  | exportSpecifier
  | exportName
  | declaration
  | importWord
  | importStatement
  | importClause
  | fromClause
  | namespaceImport
  | namedImports
  | importSpecifier
  | importAttribute
  | statement
  | expressionStatement
  | variableDeclaration
  | lexicalDeclaration
  | usingDeclaration
  | variableDeclarator
  | statementBlock
  | elseClause
  | ifStatement
  | switchStatement
  | forStatement
  | forInStatement
  | forHeader
  | whileStatement
  | doStatement
  | tryStatement
  | withStatement
  | breakStatement
  | continueStatement
  | debuggerStatement
  | returnStatement
  | throwStatement
  | emptyStatement
  | labeledStatement
  | switchBody
  | switchCase
  | switchDefault
  | catchClause
  | finallyClause
  | parenthesizedExpression
  | expression
  | primaryExpression
  | yieldExpression
  | object
  | objectPattern
  | assignmentPattern
  | objectAssignmentPattern
  | array
  | arrayPattern
  | element
  | elementExpression
  | openingTag
  | nestedName
  | namespacedName
  | closingTag
  | selfClosingElement
  | elementAttribute
  | attributeString
  | classExpression
  | classDeclaration
  | classHeritage
  | functionExpression
  | functionDeclaration
  | generatorFunction
  | generatorDeclaration
  | arrowFunction
  | callSignature
  | formalParameter
  | optionalChain
  | callExpression
  | newExpression
  | awaitExpression
  | memberExpression
  | subscriptExpression
  | assignmentExpression
  | updatedTarget
  | updatingAssignment
  | initializer
  | destructuringPattern
  | spreadElement
  | choiceExpression
  | binaryExpression
  | unaryExpression
  | updateExpression
  | sequenceExpression
  | string
  | template
  | templateSubstitution
  | regex
  | metaProperty
  | arguments
  | decorator
  | decoratorMember
  | decoratorCall
  | classBody
  | fieldDefinition
  | formalParameters
  | staticBlock
  | pattern
  | restPattern
  | methodDefinition
  | pair
  | pairPattern
  | propertyName
  | computedName
  | typedFieldDefinition
  | importName
  | nonNullExpression
  | methodSignature
  | abstractMethodSignature
  | functionSignature
  | decoratorParenthesis
  | typeAssertion
  | asExpression
  | satisfiesExpression
  | instantiation
  | importRequire
  | extendsClause
  | extendsItem
  | implementsClause
  | ambientDeclaration
  | abstractClass
  | outerModule
  | innerModule
  | moduleContent
  | importAlias
  | nestedTypeName
  | interfaceDeclaration
  | interfaceExtends
  | enumDeclaration
  | enumBody
  | enumAssignment
  | typeAlias
  | accessModifier
  | overrideModifier
  | requiredParameter
  | optionalParameter
  | parameterName
  | omittedType
  | addedType
  | optedType
  | typeMark
  | importTypeMember
  | importTypeCall
  | asserts
  | assertsMark
  | type
  | tupleParameter
  | optionalTupleParameter
  | optionalType
  | restType
  | tupleMember
  | constructorType
  | primaryType
  | templateHole
  | templateType
  | inferType
  | conditionalType
  | genericType
  | typePredicate
  | predicateMark
  | typeQueryMember
  | typeQuerySubscript
  | typeQueryCall
  | typeQueryInstantiation
  | typeQuery
  | keyType
  | lookupType
  | mappedKey
  | literalType
  | signedNumber
  | anyType
  | maybeType
  | parenthesizedType
  | predefinedType
  | typeArguments
  | objectType
  | plainSignature
  | propertySignature
  | typeParameters
  | typeParameter
  | defaultType
  | constraint
  | constructSignature
  | indexSignature
  | arrayType
  | tupleType
  | readonlyType
  | unionType
  | intersectionType
  | functionType
  deriving DecidableEq, Repr, Hashable, Inhabited

namespace Construct

/-- Constructs that only collect others and do not count as parts of what contains them. -/
def isHidden : Construct → Bool
  | statement | declaration | expression | primaryExpression | pattern | type | primaryType
  | exportName | fromClause | forHeader | attributeString | callSignature | formalParameter
  | updatedTarget | initializer | destructuringPattern | propertyName | importName | extendsItem
  | moduleContent | parameterName | tupleMember => true
  | _ => false

end Construct
end Script
end ModuleAudit
