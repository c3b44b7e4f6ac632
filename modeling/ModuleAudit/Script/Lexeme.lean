import ModuleAudit.Script.Character

/-
The spellings of tokens that are classes of texts.

Every function here gives the number of characters at the front of a text that belong to the
token, and zero if the text does not start with one.
-/

namespace ModuleAudit
namespace Script
namespace Lexeme

/-- The length of the longest run of characters of a class. -/
def runLength (p : Char → Bool) (cs : List Char) : Nat := (cs.takeWhile p).length

/-- As many characters as one of the alternatives takes, whichever takes most. -/
def longest (lengths : List Nat) : Nat := lengths.foldl max 0

/-! ## Names -/

/-- `uXXXX` or a braced code point follows a backslash. -/
def isCodeEscape : List Char → Bool
  | 'u' :: '{' :: cs =>
    !(cs.takeWhile isHexDigit).isEmpty && (cs.dropWhile isHexDigit).head? == some '}'
  | 'u' :: a :: b :: c :: d :: _ => [a, b, c, d].all isHexDigit
  | _ => false

/-- The rest of a name of which `n` characters have been read; `braced` inside a braced escape. -/
def nameFrom (n : Nat) (braced : Bool) : List Char → Nat
  | [] => n
  | c :: cs =>
    if braced then nameFrom (n + 1) (c != '}') cs
    else if isNamePart c then nameFrom (n + 1) false cs
    else if c == '\\' && isCodeEscape cs then
      match cs with
      | _ :: '{' :: rest => nameFrom (n + 3) true rest
      | _ :: rest => nameFrom (n + 2) false rest
      | [] => n
    else n

/-- A name or a keyword. -/
def name (cs : List Char) : Nat :=
  match cs with
  | [] => 0
  | c :: tail =>
    if isNameStart c || (c == '\\' && isCodeEscape tail) then nameFrom 0 false cs else 0

def privateName : List Char → Nat
  | '#' :: cs => if name cs == 0 then 0 else name cs + 1
  | _ => 0

/-! ## Numbers -/

/-- Digits of a class, each with an underscore in front or not; `n` characters came before. -/
def digitsFrom (digit : Char → Bool) (n : Nat) : List Char → Nat
  | '_' :: d :: cs => if digit d then digitsFrom digit (n + 2) cs else n
  | c :: cs => if digit c then digitsFrom digit (n + 1) cs else n
  | [] => n

/-- Digits of a class with single underscores between them. -/
def digits (digit : Char → Bool) : List Char → Nat
  | c :: cs => if digit c then digitsFrom digit 1 cs else 0
  | [] => 0

/-- The whole part of a number with a fraction or an exponent: a zero alone, or digits with at
most one zero in front. -/
def wholePart : List Char → Nat
  | '0' :: c :: cs => if '1' ≤ c && c ≤ '9' then digitsFrom Char.isDigit 2 cs else 1
  | c :: cs => if c == '0' then 1 else if c.isDigit then digitsFrom Char.isDigit 1 cs else 0
  | [] => 0

def exponent : List Char → Nat
  | c :: cs =>
    let sign := match cs with
      | '+' :: _ => 1
      | '-' :: _ => 1
      | _ => 0
    let count := digits Char.isDigit (cs.drop sign)
    if (c == 'e' || c == 'E') && 0 < count then 1 + sign + count else 0
  | [] => 0

/-- A point, digits behind it if there are any, and an exponent if there is one. -/
def fraction : List Char → Nat
  | '.' :: cs =>
    let count := digits Char.isDigit cs
    1 + count + exponent (cs.drop count)
  | _ => 0

/-- An `n` behind `length` digits makes them a big integer. -/
def withSuffix (cs : List Char) (length : Nat) : Nat :=
  if 0 < length && (cs.drop length).head? == some 'n' then length + 1 else length

/-- An integer in another base, after a zero and the letter of the base. -/
def based (letter : Char) (digit : Char → Bool) : List Char → Nat
  | '0' :: b :: cs =>
    let count := digits digit cs
    if b.toLower == letter && 0 < count then withSuffix ('0' :: b :: cs) (count + 2) else 0
  | _ => 0

def number (cs : List Char) : Nat :=
  let whole := wholePart cs
  let behind := cs.drop whole
  let pointed := fraction behind
  longest
    [based 'x' isHexDigit cs,
      based 'b' (fun c => c == '0' || c == '1') cs,
      based 'o' (fun c => '0' ≤ c && c ≤ '7') cs,
      withSuffix cs (digits Char.isDigit cs),
      if 0 < whole && 0 < pointed then whole + pointed else 0,
      if 0 < whole && 0 < exponent behind then whole + exponent behind else 0,
      if 1 < fraction cs && (cs.drop 1).head?.any Char.isDigit then fraction cs else 0]

/-! ## Comments -/

/-- The end of a line comment: any line break, a carriage return among them. -/
def endsComment (c : Char) : Bool := isLineEnd c || c == '\r'

/-- The length of a block comment of which `n` characters have been read; zero if it is not
closed. -/
def blockFrom (n : Nat) : List Char → Nat
  | [] => 0
  | '*' :: '/' :: _ => n + 2
  | _ :: cs => blockFrom (n + 1) cs

def comment : List Char → Nat
  | '/' :: '/' :: cs => 2 + runLength (!endsComment ·) cs
  | '/' :: '*' :: cs => blockFrom 2 cs
  | _ => 0

/-- The line that names the interpreter of a script. -/
def interpreterLine : List Char → Nat
  | '#' :: '!' :: cs => 2 + runLength (· != '\n') cs
  | _ => 0

/-! ## Literals -/

/-- Characters of a string between `quote`s. -/
def fragment (quote : Char) (cs : List Char) : Nat :=
  runLength (fun c => c != quote && c != '\\' && c != '\r' && c != '\n') cs

/-- What may follow a backslash in a literal. -/
def escaped : List Char → Nat
  | [] => 0
  | 'x' :: cs => if runLength isHexDigit (cs.take 2) == 2 then 3 else 0
  | 'u' :: '{' :: cs => if isCodeEscape ('u' :: '{' :: cs) then runLength isHexDigit cs + 3 else 0
  | 'u' :: cs => if runLength isHexDigit (cs.take 4) == 4 then 5 else 0
  | c :: cs =>
    if '0' ≤ c && c ≤ '7' then runLength (fun d => '0' ≤ d && d ≤ '7') ((c :: cs).take 3)
    else if (c == '\r' || c == '?') && cs.head?.any isLineEnd then 2
    else 1

def escape : List Char → Nat
  | '\\' :: cs => if escaped cs == 0 then 0 else escaped cs + 1
  | _ => 0

/-- The inside of a regular expression of which `n` characters have been read.  `inClass` holds
the length in front of the square bracket that is open: a class that is not closed does not
belong to the expression. -/
def regexFrom (n : Nat) (inClass : Option Nat) : List Char → Nat
  | [] => inClass.getD n
  | '\\' :: c :: cs => if c == '\n' then inClass.getD n else regexFrom (n + 2) inClass cs
  | c :: cs =>
    if c == '\n' || c == '\\' then inClass.getD n
    else
      match inClass with
      | some _ => regexFrom (n + 1) (if c == ']' then none else inClass) cs
      | none =>
        if c == '/' then n
        else regexFrom (n + 1) (if c == '[' then some n else none) cs

def regexPattern (cs : List Char) : Nat := regexFrom 0 none cs

def regexFlags (cs : List Char) : Nat := runLength (fun c => 'a' ≤ c && c ≤ 'z') cs

/-! ## Markup -/

/-- Letters of the names of elements, as far as they may have hyphens. -/
def isTagLetter (c : Char) : Bool := c.isAlpha || c == '_' || c == '$'

def hyphenatedName (cs : List Char) : Nat :=
  let first := runLength (fun c => isTagLetter c || c.isDigit) cs
  if cs.head?.any isTagLetter && (cs.drop first).head? == some '-' then
    first + runLength (fun c => isTagLetter c || c.isDigit || c == '-') (cs.drop first)
  else 0

/-- The length of a reference that opens with `n` characters and goes on with `count` more, at
least one and at most `limit`, if a semicolon closes it. -/
def closedReference (cs : List Char) (n count limit : Nat) : Nat :=
  if 0 < count && count ≤ limit && (cs.drop (n + count)).head? == some ';' then n + count + 1
  else 0

def characterReference (cs : List Char) : Nat :=
  match cs with
  | '&' :: '#' :: x :: rest =>
    if x == 'x' || x == 'X' then closedReference cs 3 (runLength isHexDigit rest) 6
    else closedReference cs 2 (runLength Char.isDigit (x :: rest)) 5
  | '&' :: rest => closedReference cs 1 (runLength Char.isAlpha rest) 30
  | _ => 0

/-- Characters of an attribute between `quote`s, `n` of which have been read.  An ampersand takes
the next character with it, unless it could open a reference. -/
def attributeFrom (quote : Char) (n : Nat) : List Char → Nat
  | '&' :: c :: cs => if c == '#' || c.isAlpha then n else attributeFrom quote (n + 2) cs
  | c :: cs => if c == quote || c == '&' then n else attributeFrom quote (n + 1) cs
  | [] => n

def attributeFragment (quote : Char) (cs : List Char) : Nat := attributeFrom quote 0 cs

/-! ## Keywords -/

/-- White space of the first 128 characters. -/
def isAsciiBlank (c : Char) : Bool := (0x09 ≤ c.toNat && c.toNat ≤ 0x0D) || c == ' '

/-- The words `static get` and the blanks behind them up to the last line break, if there is
one. -/
def staticGetter (cs : List Char) : Nat :=
  let gap := runLength isAsciiBlank (cs.drop 6)
  let behind := cs.drop (9 + gap)
  let broken := (behind.takeWhile isAsciiBlank).reverse.dropWhile (· != '\n')
  if "static".toList.isPrefixOf cs && 0 < gap && "get".toList.isPrefixOf (cs.drop (6 + gap)) &&
      !broken.isEmpty then
    9 + gap + broken.length
  else 0

end Lexeme
end Script
end ModuleAudit
