import ModuleAudit.Pattern.Script

/-
Specifiers found in plain text, without parsing it.

Six patterns cover the usual ways to name a module.  Each is searched for in the whole text, and
the specifiers come pattern by pattern.  The search never fails; it also finds what stands in
comments and strings.
-/

namespace ModuleAudit
namespace Specifier
namespace Textual

open Pattern
open Pattern.Script

/-- A specifier in quotes. -/
def quotedSpecifier : Pattern :=
  all [quote, capture (most 1 fun c => !isQuote c && c != '\n'), quote]

/-- A specifier in quotes, backquotes among them. -/
def anyQuotedSpecifier : Pattern :=
  let isAnyQuote := fun c => isQuote c || c == '`'
  all [one isAnyQuote, capture (most 1 fun c => !isAnyQuote c && c != '\n'), one isAnyQuote]

def typeMark : Pattern := Pattern.optional (all [text "type", gap])

/-- `import names from "m"` -/
def importFrom : Pattern :=
  all [word "import", gap, typeMark, fewest 1 isClausePart, source, quotedSpecifier]

/-- `import "m"` -/
def importBare : Pattern := all [word "import", blanks, quotedSpecifier]

/-- The star of an export, with a name for it or without. -/
def everything : Pattern :=
  all [literal ['*'], Pattern.optional (all [blanks, text "as", gap, name])]

/-- `export * from "m"`, `export * as name from "m"` and exports of listed names -/
def exportFrom : Pattern :=
  all [word "export", gap, typeMark, choice everything (bracketed '{' '}'), source,
    quotedSpecifier]

/-- `import("m")` -/
def importCall : Pattern := all [word "import", called anyQuotedSpecifier]

/-- `const names = require("m")` -/
def requireBound : Pattern :=
  let keyword := oneOf [text "const", text "let", text "var"]
  let names := oneOf [name, bracketed '{' '}', bracketed '[' ']']
  all [boundary, keyword, gap, names, blanks, literal ['='], blanks, text "require",
    called quotedSpecifier]

/-- `require("m")` -/
def requireCall : Pattern := all [word "require", called quotedSpecifier]

def patterns : List Pattern :=
  [importFrom, importBare, exportFrom, importCall, requireBound, requireCall]

/-- The specifiers that the patterns find, pattern by pattern. -/
def extract (content : String) : List String :=
  let cs := content.toList
  patterns.flatMap fun p => (p.allMatches cs).map fun found => String.ofList found.captured

end Textual
end Specifier
end ModuleAudit
