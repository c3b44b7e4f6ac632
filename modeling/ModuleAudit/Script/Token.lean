/-
The tokens of scripts.

Operators, brackets and keywords are tokens by their text.  All other tokens are classes of texts,
and some stand for nothing that is written at all: a semicolon supplied at the end of a line, and
the end of the text.
-/

namespace ModuleAudit
namespace Script

inductive Token where
  /-- The end of the text. -/
  | finish
  /-- A mark for places where reserved words are names. -/
  | anyName
  | name
  /-- An operator, bracket or keyword. -/
  | text (spelling : String)
  /-- A name after a number sign. -/
  | privateName
  | number
  /-- The first line of a file that names its interpreter. -/
  | interpreterLine
  | comment
  /-- A comment in the manner of markup, up to the end of its line. -/
  | markupComment
  /-- Characters of a string in double quotes. -/
  | doubleFragment
  /-- Characters of a string in single quotes. -/
  | singleFragment
  | escape
  /-- Characters of a template. -/
  | templateFragment
  | regexPattern
  | regexClose
  | regexFlags
  /-- A name with hyphens, as elements and attributes have. -/
  | hyphenatedName
  /-- A character of markup written by its name or number. -/
  | characterReference
  /-- Characters of an attribute in double quotes. -/
  | doubleAttributeFragment
  /-- Characters of an attribute in single quotes. -/
  | singleAttributeFragment
  /-- Text between elements. -/
  | elementText
  /-- The words `static` and `get` with a line break behind them. -/
  | staticGetter
  | automaticSemicolon
  /-- Stands beside `automaticSemicolon` where the body of a function could follow. -/
  | signatureSemicolon
  /-- The question mark of a choice between two expressions. -/
  | choiceMark
  deriving DecidableEq, Repr, Hashable, Inhabited

end Script
end ModuleAudit
