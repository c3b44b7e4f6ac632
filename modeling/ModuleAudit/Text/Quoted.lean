import ModuleAudit.Text.Printable

/-
Quoted text, as messages show names.

A text is put in single quotes, or in double quotes if it holds a single quote and no double
quote.  The quote in use, backslashes and characters that cannot be printed are escaped.
-/

namespace ModuleAudit
namespace Text
namespace Quoted

/-- `count` lower-case hexadecimal digits of `n`, zeros in front. -/
def hex (count n : Nat) : List Char :=
  let digits := Nat.toDigits 16 n
  List.replicate (count - digits.length) '0' ++ digits

/-- The escape of a character by its code point, in the shortest of three widths. -/
def codeEscape (n : Nat) : List Char :=
  if n ≤ 0xFF then '\\' :: 'x' :: hex 2 n
  else if n ≤ 0xFFFF then '\\' :: 'u' :: hex 4 n
  else '\\' :: 'U' :: hex 8 n

def escape (quote c : Char) : List Char :=
  if c == quote || c == '\\' then ['\\', c]
  else if c == '\n' then ['\\', 'n']
  else if c == '\r' then ['\\', 'r']
  else if c == '\t' then ['\\', 't']
  else if isPrintable c then [c]
  else codeEscape c.toNat

/-- The quote that surrounds a text. -/
def quoteFor (cs : List Char) : Char :=
  if cs.contains '\'' && !cs.contains '"' then '"' else '\''

end Quoted

/-- A text in quotes, with escapes. -/
def quoted (s : String) : String :=
  let cs := s.toList
  let quote := Quoted.quoteFor cs
  String.ofList (quote :: cs.flatMap (Quoted.escape quote) ++ [quote])

end Text
end ModuleAudit
