import ModuleAudit.Pattern.Basic
import ModuleAudit.Text.Blank

/-
Pieces of patterns for script text: blanks, names, quotes and bracketed lists.
-/

namespace ModuleAudit
namespace Pattern
namespace Script

/-- Blanks, possibly none. -/
def blanks : Pattern := most 0 Text.isBlank

/-- At least one blank. -/
def gap : Pattern := most 1 Text.isBlank

def isNamePart (c : Char) : Bool := Text.isWord c || c == '$'

def name : Pattern := most 1 isNamePart

/-- A character of the list of names between `import` and `from`. -/
def isClausePart (c : Char) : Bool :=
  isNamePart c || Text.isBlank c || ['{', '}', ',', '*'].contains c

def isQuote (c : Char) : Bool := c == '\'' || c == '"'

def quote : Pattern := one isQuote

/-- A text between an opening and a closing bracket, free of the closing one. -/
def bracketed (opening closing : Char) : Pattern :=
  all [literal [opening], most 0 (· != closing), literal [closing]]

/-- A word at its start. -/
def word (s : String) : Pattern := sequence boundary (text s)

/-- The word before the name of a module, with blanks around it. -/
def source : Pattern := all [blanks, text "from", blanks]

/-- An opening parenthesis with blanks around it, the inner pattern, and the closing one. -/
def called (inner : Pattern) : Pattern :=
  all [blanks, literal ['('], blanks, inner, blanks, literal [')']]

end Script
end Pattern
end ModuleAudit
