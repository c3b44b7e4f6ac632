import ModuleAudit.Json.Basic
import ModuleAudit.Json.Fault

/-
Reading JSON.

The reader goes from left to right and stops at the first fault, whose offset is kept for the
message.  Beyond the standard it takes the words for infinity and for no number, and escapes for one
half of a surrogate pair.  Such a half is no character.  A character at the end of the last plane,
which is there for private use, stands in for it, so that texts with different halves stay different.
A text that has that character itself is not told apart from one with the half.
-/

namespace ModuleAudit
namespace Json

namespace Parser

/-- What is left to read, and its offset in the text. -/
structure Cursor where
  offset : Nat
  rest : List Char

namespace Cursor

def drop (c : Cursor) (n : Nat) : Cursor := { offset := c.offset + n, rest := c.rest.drop n }

def isSpace (c : Char) : Bool := c == ' ' || c == '\t' || c == '\n' || c == '\r'

def skipSpace (c : Cursor) : Cursor := c.drop (c.rest.takeWhile isSpace).length

end Cursor

def fail {α : Type} (cause : Cause) (offset : Nat) : Except Fault α :=
  .error (.syntactic cause offset)

/-! ## Strings -/

def hexValue? (c : Char) : Option Nat :=
  if c.isDigit then some (c.toNat - '0'.toNat)
  else if 'a' ≤ c && c ≤ 'f' then some (c.toNat - 'a'.toNat + 10)
  else if 'A' ≤ c && c ≤ 'F' then some (c.toNat - 'A'.toNat + 10)
  else none

/-- The value of four hexadecimal digits. -/
def code? : List Char → Option Nat
  | a :: b :: c :: d :: _ => do
    let digits ← [a, b, c, d].mapM hexValue?
    return digits.foldl (fun n digit => 16 * n + digit) 0
  | _ => none

def isHighSurrogate (n : Nat) : Bool := 0xD800 ≤ n && n ≤ 0xDBFF

def isLowSurrogate (n : Nat) : Bool := 0xDC00 ≤ n && n ≤ 0xDFFF

def joinSurrogates (high low : Nat) : Nat := 0x10000 + (high - 0xD800) * 0x400 + (low - 0xDC00)

/-- The character that an escape with a code point stands for.  The halves of surrogate pairs are in
the last 2048 places of the last plane. -/
def escaped (code : Nat) : Char :=
  Char.ofNat (if isHighSurrogate code || isLowSurrogate code then code + 0x102000 else code)

theorem toNat_escaped {code : Nat} (h : code < 0x10000) :
    (escaped code).toNat =
      if isHighSurrogate code || isLowSurrogate code then code + 0x102000 else code := by
  have hvalid : Nat.isValidChar
      (if isHighSurrogate code || isLowSurrogate code then code + 0x102000 else code) := by
    simp only [isHighSurrogate, isLowSurrogate, Bool.or_eq_true, Bool.and_eq_true, decide_eq_true_iff,
      Nat.isValidChar]
    split <;> omega
  rw [escaped, Char.ofNat, dif_pos hvalid]
  rfl

/-- Escapes with different code points stand for different characters. -/
theorem escaped_inj {a b : Nat} (ha : a < 0x10000) (hb : b < 0x10000) (h : escaped a = escaped b) :
    a = b := by
  have hcodes := congrArg Char.toNat h
  rw [toNat_escaped ha, toNat_escaped hb] at hcodes
  split at hcodes <;> split at hcodes <;> omega

/-- The character that a simple escape stands for. -/
def simpleEscape? : Char → Option Char
  | '"' => some '"'
  | '\\' => some '\\'
  | '/' => some '/'
  | 'b' => some '\x08'
  | 'f' => some '\x0c'
  | 'n' => some '\n'
  | 'r' => some '\r'
  | 't' => some '\t'
  | _ => none

/-- The second half of a surrogate pair, written as an escape with more text behind it: its code
point, or none if there is no such escape. -/
def secondHalf? (offset : Nat) : List Char → Except Fault (Option Nat)
  | '\\' :: 'u' :: cs =>
    if cs.length ≤ 4 then .ok none
    else
      match code? cs with
      | some low => .ok (if isLowSurrogate low then some low else none)
      | none => fail .codeEscape (offset + 1)
  | _ => .ok none

/-- Reads the rest of a string that was opened at `opening`.  `read` holds the characters so far,
last first; `skip` characters were already taken as part of an escape. -/
def stringFrom (opening : Nat) (read : List Char) (offset skip : Nat) :
    List Char → Except Fault (String × Cursor)
  | [] => fail .unterminated opening
  | c :: cs =>
    match skip with
    | skip + 1 => stringFrom opening read (offset + 1) skip cs
    | 0 =>
      if c == '"' then .ok (String.ofList read.reverse, { offset := offset + 1, rest := cs })
      else if c == '\\' then
        match cs with
        | [] => fail .unterminated opening
        | 'u' :: digits =>
          if digits.length ≤ 4 then fail .codeEscape (offset + 1)
          else
            match code? digits with
            | none => fail .codeEscape (offset + 1)
            | some code =>
              match if isHighSurrogate code then secondHalf? (offset + 6) (digits.drop 4)
                else .ok none with
              | .error fault => .error fault
              | .ok (some low) =>
                stringFrom opening (Char.ofNat (joinSurrogates code low) :: read) (offset + 1) 11 cs
              | .ok none => stringFrom opening (escaped code :: read) (offset + 1) 5 cs
        | d :: _ =>
          match simpleEscape? d with
          | some e => stringFrom opening (e :: read) (offset + 1) 1 cs
          | none => fail .escape offset
      else if c.toNat ≤ 0x1F then fail .controlCharacter offset
      else stringFrom opening (c :: read) (offset + 1) 0 cs

/-- A string, the cursor at its opening quote. -/
def string (c : Cursor) : Except Fault (String × Cursor) :=
  stringFrom c.offset [] (c.offset + 1) 0 (c.rest.drop 1)

/-! ## Numbers -/

/-- The whole part of a number: a zero, or digits that do not start with one. -/
def wholeDigits (cs : List Char) : List Char :=
  match cs with
  | '0' :: _ => ['0']
  | _ => cs.takeWhile Char.isDigit

/-- A point with digits behind it; the digits. -/
def fractionDigits : List Char → List Char
  | '.' :: cs => cs.takeWhile Char.isDigit
  | _ => []

/-- An exponent: the number of its characters, its sign and its digits. -/
def exponentPart (cs : List Char) : Option (Nat × Bool × List Char) :=
  match cs with
  | e :: cs =>
    if e == 'e' || e == 'E' then
      let (signs, negative, cs) := match cs with
        | '-' :: cs => (1, true, cs)
        | '+' :: cs => (1, false, cs)
        | cs => (0, false, cs)
      let digits := cs.takeWhile Char.isDigit
      if digits.isEmpty then none else some (1 + signs + digits.length, negative, digits)
    else none
  | [] => none

def natOf (digits : List Char) : Nat :=
  digits.foldl (fun n d => 10 * n + (d.toNat - '0'.toNat)) 0

/-- A number.  Without digits there is no value at the cursor. -/
def number (c : Cursor) : Except Fault (Json × Cursor) :=
  let negative := c.rest.head? == some '-'
  let start := if negative then 1 else 0
  let whole := wholeDigits (c.rest.drop start)
  if whole.isEmpty then fail .value c.offset
  else
    let afterWhole := c.rest.drop (start + whole.length)
    let fraction := fractionDigits afterWhole
    let fractionLength := if fraction.isEmpty then 0 else fraction.length + 1
    let exponent := exponentPart (afterWhole.drop fractionLength)
    let next := c.drop (start + whole.length + fractionLength + (exponent.map (·.1)).getD 0)
    if fraction.isEmpty && exponent.isNone then
      if digitLimit < whole.length then .error (.tooManyDigits whole.length)
      else
        let n : Int := natOf whole
        .ok (.int (if negative then -n else n), next)
    else
      let power : Int := match exponent with
        | some (_, true, digits) => -(natOf digits : Int)
        | some (_, false, digits) => natOf digits
        | none => 0
      .ok (.float (.ofDecimal negative (natOf (whole ++ fraction)) (power - fraction.length)), next)

/-! ## Values -/

/-- The words that stand for values. -/
def words : List (String × Json) :=
  [("null", .null), ("true", .bool true), ("false", .bool false), ("NaN", .float .notANumber),
    ("Infinity", .float (.infinity false)), ("-Infinity", .float (.infinity true))]

def word? (c : Cursor) : Option (Json × Cursor) :=
  (words.find? fun (word, _) => word.toList.isPrefixOf c.rest).map fun (word, value) =>
    (value, c.drop word.length)

mutual

/-- A value at the cursor, read in at most `room` steps; `depth` containers are open. -/
def value : (room depth : Nat) → Cursor → Except Fault (Json × Cursor)
  | 0, _, c => fail .value c.offset
  | room + 1, depth, c =>
    match c.rest with
    | '"' :: _ => do
      let (s, next) ← string c
      return (.string s, next)
    | '{' :: _ =>
      let inner := (c.drop 1).skipSpace
      if depthLimit ≤ depth then .error (.tooDeep ⟨.object⟩)
      else if inner.rest.head? == some '}' then .ok (.object [], inner.drop 1)
      else members room (depth + 1) [] inner
    | '[' :: _ =>
      let inner := (c.drop 1).skipSpace
      if depthLimit ≤ depth then .error (.tooDeep ⟨.array⟩)
      else if inner.rest.head? == some ']' then .ok (.array [], inner.drop 1)
      else items room (depth + 1) [] inner
    | _ =>
      match word? c with
      | some found => .ok found
      | none => number c

/-- The members of an object from a key on; `read` holds the members before. -/
def members : (room depth : Nat) → Table Json → Cursor → Except Fault (Json × Cursor)
  | 0, _, _, c => fail .value c.offset
  | room + 1, depth, read, c => do
    if c.rest.head? != some '"' then fail .propertyName c.offset
    else
      let (key, afterKey) ← string c
      let colon := afterKey.skipSpace
      if colon.rest.head? != some ':' then fail .colon colon.offset
      else
        let (v, afterValue) ← value room depth (colon.drop 1).skipSpace
        let next := afterValue.skipSpace
        let read := read.put key v
        match next.rest.head? with
        | some '}' => .ok (.object read, next.drop 1)
        | some ',' => members room depth read (next.drop 1).skipSpace
        | _ => fail .comma next.offset

/-- The items of an array from one on; `read` holds the items before. -/
def items : (room depth : Nat) → List Json → Cursor → Except Fault (Json × Cursor)
  | 0, _, _, c => fail .value c.offset
  | room + 1, depth, read, c => do
    let (v, afterValue) ← value room depth c
    let next := afterValue.skipSpace
    let read := read ++ [v]
    match next.rest.head? with
    | some ']' => .ok (.array read, next.drop 1)
    | some ',' => items room depth read (next.drop 1).skipSpace
    | _ => fail .comma next.offset

end

end Parser

open Json.Parser in
/-- The value that a text describes.  Every step of nesting reads a character, which bounds the
room that is needed. -/
def parse (text : List Char) : Except Fault Json := do
  if text.head? == some '\uFEFF' then fail .byteOrderMark 0
  else
    let start : Cursor := { offset := 0, rest := text }
    let (v, last) ← value (2 * text.length + 2) 0 start.skipSpace
    let rest := last.skipSpace
    if rest.rest.isEmpty then return v else fail .extraData rest.offset

end Json
end ModuleAudit
