import ModuleAudit.Script.Rules.Expression

/-
Rules of classes and decorators.
-/

namespace ModuleAudit
namespace Script
namespace Rules

open Construct

/-- A class: `opens` comes in front of the word, `called` is its name. -/
def classRule (d : Dialect) (opens called : Rule) : Rule :=
  seq [decorators, opens, "class", called, given d.typed (opt typeParameters), opt classHeritage,
    classBody]

/-- Words in front of the name of a method. -/
def methodWords : Rule := seq [opt "async", opt (oneOf ["get", "set", "*"])]

/-- Modifiers of the members of a typed class, in the order in which they are written. -/
def typedModifiers : Rule :=
  seq [opt accessModifier, opt "static", opt overrideModifier, opt "readonly"]

def untypedClasses (d : Dialect) : List Entry :=
  [(classDeclaration, .level .declare (seq [classRule d .empty name, supplied])),
    (classHeritage, seq ["extends", expression]),
    (decorator, seq ["@", oneOf [name, decoratorMember, decoratorCall]]),
    (decoratorCall, .level .call (seq [oneOf [name, decoratorMember], arguments])),
    (classBody,
      braced (many (oneOf [seq [methodDefinition, opt ";"], seq [fieldDefinition, semicolon],
        staticBlock, ";"]))),
    (fieldDefinition, seq [decorators, opt "static", propertyName, opt initializer]),
    (methodDefinition,
      seq [decorators, opt (oneOf ["static", Token.staticGetter]), methodWords, propertyName,
        formalParameters, statementBlock])]

def typedClassBody : Rule :=
  braced (many (oneOf [seq [decorators, methodDefinition, opt semicolon],
    seq [methodSignature, oneOf [Token.signatureSemicolon, ","]],
    staticBlock,
    seq [oneOf [abstractMethodSignature, indexSignature, methodSignature, typedFieldDefinition],
      oneOf [semicolon, ","]],
    ";"]))

def typedField : Rule :=
  seq [decorators,
    opt (oneOf [seq ["declare", opt accessModifier], seq [accessModifier, opt "declare"]]),
    oneOf [seq [opt "static", opt overrideModifier, opt "readonly"],
      seq [opt "abstract", opt "readonly"], seq [opt "readonly", opt "abstract"], opt "accessor"],
    propertyName, opt (oneOf ["?", "!"]), opt typeMark, opt initializer]

def typedClasses (d : Dialect) : List Entry :=
  let method := seq [typedModifiers, methodWords, propertyName, opt "?", callSignature]
  [(classDeclaration, .leftLevel .declare (seq [classRule d .empty name, supplied])),
    (abstractClass, .level .declare (classRule d "abstract" name)),
    (classHeritage, oneOf [seq [extendsClause, opt implementsClause], implementsClause]),
    (extendsClause, seq ["extends", commas1 extendsItem]),
    (extendsItem, .level .extends (seq [expression, opt typeArguments])),
    (implementsClause, seq ["implements", commas1 type]),
    (decorator, seq ["@", oneOf [name, decoratorMember, decoratorCall, decoratorParenthesis]]),
    (decoratorCall,
      .level .call (seq [oneOf [name, decoratorMember], opt typeArguments, arguments])),
    (decoratorParenthesis, seq ["(", oneOf [name, decoratorMember, decoratorCall], ")"]),
    (classBody, typedClassBody),
    (typedFieldDefinition, typedField),
    (methodDefinition, .left (seq [method, statementBlock])),
    (methodSignature, method),
    (abstractMethodSignature,
      seq [opt accessModifier, "abstract", opt overrideModifier, opt (oneOf ["get", "set", "*"]),
        propertyName, opt "?", callSignature]),
    (accessModifier, oneOf ["public", "private", "protected"]),
    (overrideModifier, "override")]

def classes (d : Dialect) : List Entry :=
  [(classExpression, .level .literal (classRule d .empty (opt name))),
    (decoratorMember, .level .member (seq [oneOf [name, decoratorMember], ".", name])),
    (staticBlock, seq ["static", supplied, statementBlock])]

end Rules
end Script
end ModuleAudit
