import ModuleAudit.Script.Rules.Statement

/-
Rules of declarations.
-/

namespace ModuleAudit
namespace Script
namespace Rules

open Construct

def declarations (d : Dialect) : List Entry :=
  [(declaration,
    oneOf [functionDeclaration, generatorDeclaration, classDeclaration, lexicalDeclaration,
      variableDeclaration,
      only d.typed (oneOf [functionSignature, abstractClass, outerModule,
        .level .declare innerModule, typeAlias, enumDeclaration, interfaceDeclaration, importAlias,
        ambientDeclaration]),
      only (!d.typed) usingDeclaration])]

/-- Declarations that only typed dialects have. -/
def typedDeclarations : List Entry :=
  [(functionSignature,
      seq [opt "async", "function", name, callSignature,
        oneOf [semicolon, Token.signatureSemicolon]]),
    (ambientDeclaration,
      seq ["declare",
        oneOf [declaration, seq ["global", statementBlock],
          seq ["module", ".", name, ":", type, semicolon]]]),
    (outerModule, seq ["module", moduleContent]),
    (innerModule, seq ["namespace", moduleContent]),
    (moduleContent, .right (seq [oneOf [string, name, nestedName], opt statementBlock])),
    (interfaceDeclaration,
      seq ["interface", name, opt typeParameters, opt interfaceExtends, objectType]),
    (interfaceExtends, seq ["extends", commas1 (oneOf [name, nestedTypeName, genericType])]),
    (enumDeclaration, seq [opt "const", "enum", name, enumBody]),
    (enumBody,
      braced (opt (seq [commas1 (oneOf [propertyName, enumAssignment]), opt ","]))),
    (enumAssignment, seq [propertyName, initializer]),
    (typeAlias, seq ["type", name, opt typeParameters, "=", type, semicolon])]

end Rules
end Script
end ModuleAudit
