/-
Character classes of script text.

Two notions of blank are in use.  `isBlank` is the white space that may separate two tokens.
`isPlainBlank` is the narrower class that is skipped while looking for the end of a statement:
it leaves out the spaces that forbid a line break.
-/

namespace ModuleAudit
namespace Script

/-- Space separators, the zero-width spaces and the line breaks. -/
def isBlank (c : Char) : Bool :=
  let n := c.toNat
  (0x09 ≤ n && n ≤ 0x0D) || n == 0x20 || n == 0xA0 || n == 0x1680 ||
    (0x2000 ≤ n && n ≤ 0x200B) || n == 0x2028 || n == 0x2029 || n == 0x202F || n == 0x205F ||
    n == 0x2060 || n == 0x3000 || n == 0xFEFF

def isPlainBlank (c : Char) : Bool :=
  let n := c.toNat
  (0x09 ≤ n && n ≤ 0x0D) || n == 0x20 || n == 0x1680 || (0x2000 ≤ n && n ≤ 0x2006) ||
    (0x2008 ≤ n && n ≤ 0x200A) || n == 0x2028 || n == 0x2029 || n == 0x205F || n == 0x3000

/-- A line break that can end a statement.  A carriage return alone is not one. -/
def isLineEnd (c : Char) : Bool :=
  c == '\n' || c == '\u2028' || c == '\u2029'

def isHexDigit (c : Char) : Bool :=
  c.isDigit || ('a' ≤ c && c ≤ 'f') || ('A' ≤ c && c ≤ 'F')

/-- Anything but controls, blanks and the characters of operators and brackets. -/
def isNamePart (c : Char) : Bool :=
  !(c.toNat < 0x20) && !isBlank c && !(":;`\"'@#.,|^&<=>+-*/\\%?!~()[]\x7b\x7d".toList.contains c)

def isNameStart (c : Char) : Bool :=
  isNamePart c && !c.isDigit

end Script
end ModuleAudit
