import ModuleAudit.Script.Rules.Basic

/-
Rules of statements.
-/

namespace ModuleAudit
namespace Script
namespace Rules

open Construct

/-- One expression, or several with commas between them. -/
def expressions : Rule := oneOf [expression, sequenceExpression]

/-- A name or a pattern that takes a value apart. -/
def bindingTarget : Rule := oneOf [name, destructuringPattern]

/-- What an assignment can write to. -/
def assignable (d : Dialect) : Rule :=
  oneOf [memberExpression, subscriptExpression, "undefined", name, softWords d,
    destructuringPattern, only d.typed nonNullExpression]

/-- The words in front of variables that live in a block, and `using` where there is one. -/
def blockWords (d : Dialect) : Rule :=
  oneOf ["let", "const", only (!d.typed) (oneOf ["using", seq ["await", "using"]])]

def loopHeader (d : Dialect) : Rule :=
  seq ["(",
    oneOf [assignable d, parenthesizedExpression,
      seq ["var", bindingTarget, opt initializer],
      seq [blockWords d, bindingTarget, supplied]],
    oneOf ["in", "of"], expressions, ")"]

def statements (d : Dialect) : List Entry :=
  [(program, seq [opt Token.interpreterLine, many statement]),
    (statement,
      oneOf [exportStatement, importStatement, debuggerStatement, expressionStatement, declaration,
        statementBlock, ifStatement, switchStatement, forStatement, forInStatement, whileStatement,
        doStatement, tryStatement, withStatement, breakStatement, continueStatement,
        returnStatement, throwStatement, emptyStatement, labeledStatement]),
    (expressionStatement, seq [expressions, semicolon]),
    (variableDeclaration, seq ["var", commas1 variableDeclarator, semicolon]),
    (lexicalDeclaration, seq [oneOf ["let", "const"], commas1 variableDeclarator, semicolon]),
    (variableDeclarator,
      if d.typed then
        oneOf [seq [bindingTarget, opt typeMark, opt initializer],
          .level .declare (seq [name, "!", typeMark])]
      else seq [bindingTarget, opt initializer]),
    (statementBlock, .right (seq [openBrace, many statement, closeBrace, supplied])),
    (elseClause, seq ["else", statement]),
    (ifStatement, .right (seq ["if", parenthesizedExpression, statement, opt elseClause])),
    (switchStatement, seq ["switch", parenthesizedExpression, switchBody]),
    (forStatement,
      seq ["for", "(",
        oneOf [lexicalDeclaration, variableDeclaration, seq [expressions, ";"], emptyStatement],
        oneOf [seq [expressions, ";"], emptyStatement],
        opt expressions, ")", statement]),
    (forInStatement, seq ["for", opt "await", forHeader, statement]),
    (forHeader, loopHeader d),
    (whileStatement, seq ["while", parenthesizedExpression, statement]),
    (doStatement,
      .right (seq ["do", statement, "while", parenthesizedExpression, opt semicolon])),
    (tryStatement, seq ["try", statementBlock, opt catchClause, opt finallyClause]),
    (withStatement, seq ["with", parenthesizedExpression, statement]),
    (breakStatement, seq ["break", opt name, semicolon]),
    (continueStatement, seq ["continue", opt name, semicolon]),
    (debuggerStatement, seq ["debugger", semicolon]),
    (returnStatement, seq ["return", opt expressions, semicolon]),
    (throwStatement, seq ["throw", expressions, semicolon]),
    (emptyStatement, ";"),
    (labeledStatement, .scored (-1) (seq [oneOf [name, softWords d], ":", statement])),
    (switchBody, braced (many (oneOf [switchCase, switchDefault]))),
    (switchCase, seq ["case", expressions, ":", many statement]),
    (switchDefault, seq ["default", ":", many statement]),
    (catchClause,
      seq ["catch", opt (seq ["(", bindingTarget, given d.typed (opt typeMark), ")"]),
        statementBlock]),
    (finallyClause, seq ["finally", statementBlock])]

/-- Statements that only the untyped dialect has. -/
def untypedStatements : List Entry :=
  [(usingDeclaration,
    seq [oneOf ["using", seq ["await", "using"]], commas1 variableDeclarator, semicolon])]

end Rules
end Script
end ModuleAudit
