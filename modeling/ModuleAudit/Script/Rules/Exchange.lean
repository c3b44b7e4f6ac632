import ModuleAudit.Script.Rules.Basic

/-
Rules of imports and exports.
-/

namespace ModuleAudit
namespace Script
namespace Rules

open Construct

/-- Exports of every dialect. -/
def plainExports : Rule :=
  oneOf [seq ["export",
      oneOf [seq ["*", fromClause], seq [namespaceExport, fromClause],
        seq [exportClause, fromClause], exportClause],
      semicolon],
    seq [decorators, "export",
      oneOf [declaration,
        seq ["default", oneOf [declaration, seq [expression, semicolon]]]]]]

/-- Exports that only typed dialects have. -/
def typedExports : Rule :=
  oneOf [seq ["export", "type", exportClause, opt fromClause, semicolon],
    seq ["export", "import", importAlias],
    seq ["export", "=", expression, semicolon],
    seq ["export", "as", "namespace", name, semicolon]]

/-- A mark in front of something imported or exported as a type. -/
def typeWord : Rule := opt (oneOf ["type", "typeof"])

def exchange (d : Dialect) : List Entry :=
  let marked := fun (r : Rule) => seq [given d.typed typeWord, r]
  let bound : Rule := if d.typed then importName else name
  [(exportStatement, oneOf [plainExports, only d.typed typedExports]),
    (namespaceExport, seq ["*", "as", exportName]),
    (exportClause, braced (seq [commas exportSpecifier, opt ","])),
    (exportSpecifier, marked (seq [exportName, opt (seq ["as", exportName])])),
    (exportName, oneOf [name, string, only (!d.typed) "default"]),
    (importWord, "import"),
    (importStatement,
      seq ["import",
        marked (oneOf [seq [importClause, fromClause], only d.typed importRequire, string]),
        opt importAttribute, semicolon]),
    (importClause,
      oneOf [namespaceImport, namedImports,
        seq [bound, opt (seq [",", oneOf [namespaceImport, namedImports]])]]),
    (fromClause, seq ["from", string]),
    (namespaceImport, seq ["*", "as", name]),
    (namedImports, braced (seq [commas importSpecifier, opt ","])),
    (importSpecifier,
      marked (oneOf [bound,
        seq [oneOf [exportName, only d.typed "type"], "as", bound]])),
    (importAttribute, seq ["with", object])]

/-- Imports that only typed dialects have. -/
def typedExchange : List Entry :=
  [(importName, oneOf [name, "type"]),
    (importRequire, seq [name, "=", "require", "(", string, ")"]),
    (importAlias, seq ["import", name, "=", oneOf [name, nestedName], semicolon])]

end Rules
end Script
end ModuleAudit
