import ModuleAudit.Script.Rules.Expression
import ModuleAudit.Script.Rules.Literal

/-
Rules of types, in typed dialects.
-/

namespace ModuleAudit
namespace Script
namespace Rules

open Construct

def primaryTypes : Rule :=
  oneOf [parenthesizedType, predefinedType, name, nestedTypeName, genericType, objectType,
    arrayType, tupleType, maybeType, typeQuery, keyType, "this", anyType, literalType, lookupType,
    conditionalType, templateType, intersectionType, unionType, "const"]

/-- What a member or an element of a value is taken from, in a type query. -/
def queried : Rule := oneOf [name, "this", typeQuerySubscript, typeQueryMember, typeQueryCall]

/-- What is called or given type arguments in a type query. -/
def queriedFunction : Rule := oneOf [importWord, name, typeQueryMember, typeQuerySubscript]

/-- A name behind a dot. -/
def queriedName : Rule := oneOf [Token.privateName, name]

def objectMember : Rule :=
  oneOf [exportStatement, propertySignature, plainSignature, constructSignature, indexSignature,
    methodSignature]

def objectTypeRule : Rule :=
  let between := oneOf [",", semicolon]
  seq [oneOf [openBrace, "\x7b|"],
    opt (seq [opt (oneOf [",", ";"]), objectMember, many (seq [between, objectMember]),
      opt between]),
    oneOf [closeBrace, "|\x7d"]]

def indexRule (d : Dialect) : Rule :=
  seq [opt (seq [opt (oneOf ["-", "+"]), "readonly"]), "[",
    oneOf [seq [oneOf [name, softWords d], ":", type], mappedKey], "]",
    oneOf [typeMark, omittedType, addedType, optedType]]

/-- Types that are built from other types. -/
def composedTypes : List Entry :=
  [(type,
      oneOf [primaryType, functionType, readonlyType, constructorType, inferType,
        .ranked (.number (-1)) none importTypeMember,
        .ranked (.number (-1)) none importTypeCall]),
    (primaryType, primaryTypes),
    (parenthesizedType, seq ["(", type, ")"]),
    (genericType, .level .call (seq [oneOf [name, nestedTypeName], typeArguments])),
    (arrayType, seq [primaryType, "[", "]"]),
    (lookupType, seq [primaryType, "[", type, "]"]),
    (tupleType, seq ["[", commas tupleMember, opt ",", "]"]),
    (tupleMember, oneOf [tupleParameter, optionalTupleParameter, optionalType, restType, type]),
    (tupleParameter, seq [oneOf [name, restPattern], typeMark]),
    (optionalTupleParameter, seq [name, "?", typeMark]),
    (optionalType, seq [type, "?"]),
    (restType, seq ["...", type]),
    (maybeType, .right (seq ["?", primaryType])),
    (keyType, seq ["keyof", primaryType]),
    (readonlyType, seq ["readonly", type]),
    (unionType, .left (seq [opt type, "|", type])),
    (intersectionType, .left (seq [opt type, "&", type])),
    (conditionalType, .right (seq [type, "extends", type, "?", type, ":", type])),
    (inferType, .right (seq ["infer", name, opt (seq ["extends", type])])),
    (constructorType,
      .left (seq [opt "abstract", "new", opt typeParameters, formalParameters, "=>", type])),
    (functionType,
      .left (seq [opt typeParameters, formalParameters, "=>",
        oneOf [type, asserts, typePredicate]])),
    (templateType, quoted "`" (oneOf [Token.templateFragment, templateHole])),
    (templateHole, seq ["$\x7b", oneOf [primaryType, inferType], closeBrace])]

/-- Types that stand on their own. -/
def simpleTypes : List Entry :=
  [(predefinedType,
      oneOf ["any", "number", "boolean", "string", "symbol", seq ["unique", "symbol"], "void",
        "unknown", "never", "object"]),
    (literalType,
      oneOf [signedNumber, Token.number, string, "true", "false", "null", "undefined"]),
    (signedNumber, .ranked (.number 1) (some .left) (seq [oneOf ["-", "+"], Token.number])),
    (anyType, "*"),
    (nestedTypeName, .level .member (seq [oneOf [name, nestedName], ".", name]))]

/-- Types of values and modules that are named in a type. -/
def queries : List Entry :=
  [(importTypeMember, seq [oneOf [importWord, importTypeMember, importTypeCall], ".", queriedName]),
    (importTypeCall, seq [oneOf [importWord, importTypeMember], arguments]),
    (typeQueryMember, seq [queried, oneOf [".", "?."], queriedName]),
    (typeQuerySubscript,
      seq [queried, opt "?.", "[", oneOf [predefinedType, string, Token.number], "]"]),
    (typeQueryCall, seq [queriedFunction, arguments]),
    (typeQueryInstantiation, seq [queriedFunction, typeArguments]),
    (typeQuery,
      .right (seq ["typeof", oneOf [typeQuerySubscript, typeQueryMember, typeQueryCall,
        typeQueryInstantiation, name, "this"]]))]

/-- Object types and the signatures in them. -/
def signatures (d : Dialect) : List Entry :=
  [(objectType, objectTypeRule),
    (plainSignature, callSignature),
    (propertySignature,
      seq [opt accessModifier, opt "static", opt overrideModifier, opt "readonly", propertyName,
        opt "?", opt typeMark]),
    (constructSignature,
      seq [opt "abstract", "new", opt typeParameters, formalParameters, opt typeMark]),
    (indexSignature, indexRule d),
    (mappedKey, seq [name, "in", type, opt (seq ["as", type])]),
    (callSignature,
      seq [opt typeParameters, formalParameters,
        opt (oneOf [typeMark, assertsMark, predicateMark])])]

/-- What is said about types: marks, parameters and arguments. -/
def typeParts : List Entry :=
  [(typeArguments, seq ["<", commas1 type, opt ",", ">"]),
    (typeParameters, seq ["<", commas1 typeParameter, opt ",", ">"]),
    (typeParameter, seq [opt "const", name, opt constraint, opt defaultType]),
    (defaultType, seq ["=", type]),
    (constraint, seq [oneOf ["extends", ":"], type]),
    (typeMark, seq [":", type]),
    (omittedType, seq ["-?:", type]),
    (addedType, seq ["+?:", type]),
    (optedType, seq ["?:", type]),
    (asserts, seq ["asserts", oneOf [typePredicate, name, "this"]]),
    (assertsMark, seq [":", asserts]),
    (typePredicate, seq [oneOf [name, "this", predefinedType], "is", type]),
    (predicateMark, seq [":", typePredicate])]

/-- Parameters of functions. -/
def parameters : List Entry :=
  [(formalParameter, oneOf [requiredParameter, optionalParameter]),
    (requiredParameter, seq [parameterName, opt typeMark, opt initializer]),
    (optionalParameter, seq [parameterName, "?", opt typeMark, opt initializer]),
    (parameterName,
      seq [decorators, opt accessModifier, opt overrideModifier, opt "readonly",
        oneOf [pattern, "this"]])]

def types (d : Dialect) : List Entry :=
  composedTypes ++ simpleTypes ++ queries ++ signatures d ++ typeParts ++ parameters

end Rules
end Script
end ModuleAudit
