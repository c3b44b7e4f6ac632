import ModuleAudit.Script.Rules.Statement

/-
Rules of strings, templates and regular expressions.
-/

namespace ModuleAudit
namespace Script
namespace Rules

open Construct

/-- Pieces between two quotes. -/
def quoted (quote : String) (piece : Rule) : Rule :=
  seq [.token (.text quote), many piece, .token (.text quote)]

def literals : List Entry :=
  [(string,
      oneOf [quoted "\"" (oneOf [Token.doubleFragment, Token.escape]),
        quoted "'" (oneOf [Token.singleFragment, Token.escape])]),
    (template, quoted "`" (oneOf [Token.templateFragment, Token.escape, templateSubstitution])),
    (templateSubstitution, seq ["$\x7b", expressions, closeBrace]),
    (regex, seq ["/", Token.regexPattern, Token.regexClose, opt Token.regexFlags])]

end Rules
end Script
end ModuleAudit
