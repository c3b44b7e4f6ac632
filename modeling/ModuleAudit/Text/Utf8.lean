import ModuleAudit.Text.Quoted

/-
Strict decoding of UTF-8.

Decoding stops at the first sequence that is not the encoding of a character.  The fault names
the longest prefix of that sequence that could still have been completed.
-/

namespace ModuleAudit
namespace Text
namespace Utf8

inductive Reason where
  | invalidStart
  | invalidContinuation
  | unexpectedEnd
  deriving DecidableEq, Repr

def Reason.text : Reason → String
  | invalidStart => "invalid start byte"
  | invalidContinuation => "invalid continuation byte"
  | unexpectedEnd => "unexpected end of data"

/-- The bytes from `first` on, `count` of them, are no character; `lead` is the first of them. -/
structure Fault where
  first : Nat
  count : Nat
  lead : UInt8
  reason : Reason
  deriving DecidableEq, Repr

def Fault.message (f : Fault) : String :=
  let place :=
    if f.count == 1 then
      "byte 0x" ++ String.ofList (Quoted.hex 2 f.lead.toNat) ++ " in position " ++ toString f.first
    else "bytes in position " ++ toString f.first ++ "-" ++ toString (f.first + f.count - 1)
  "'utf-8' codec can't decode " ++ place ++ ": " ++ f.reason.text

/-- The continuation bytes that a lead byte asks for: how many, and the range of the first. -/
def expects (lead : UInt8) : Option (Nat × UInt8 × UInt8) :=
  if 0xC2 ≤ lead && lead ≤ 0xDF then some (1, 0x80, 0xBF)
  else if lead == 0xE0 then some (2, 0xA0, 0xBF)
  else if lead == 0xED then some (2, 0x80, 0x9F)
  else if 0xE1 ≤ lead && lead ≤ 0xEF then some (2, 0x80, 0xBF)
  else if lead == 0xF0 then some (3, 0x90, 0xBF)
  else if 0xF1 ≤ lead && lead ≤ 0xF3 then some (3, 0x80, 0xBF)
  else if lead == 0xF4 then some (3, 0x80, 0x8F)
  else none

/-- What is being decoded: a new character, or the rest of one. -/
inductive Pending where
  | none
  /-- `left` more bytes, the next one between `low` and `high`; `code` collects the bits read. -/
  | some (lead : UInt8) (read left : Nat) (low high : UInt8) (code : Nat)

/-- Decodes the bytes from `offset` on; `pending` is the character in progress. -/
def decodeFrom (offset : Nat) (pending : Pending) : List UInt8 → Except Fault (List Char)
  | [] =>
    match pending with
    | .none => .ok []
    | .some lead read _ _ _ _ =>
      .error { first := offset - read, count := read, lead, reason := .unexpectedEnd }
  | b :: bs =>
    match pending with
    | .none =>
      if b < 0x80 then (Char.ofNat b.toNat :: ·) <$> decodeFrom (offset + 1) .none bs
      else
        match expects b with
        | none => .error { first := offset, count := 1, lead := b, reason := .invalidStart }
        | some (left, low, high) =>
          let bits := b.toNat % (2 ^ (6 - left))
          decodeFrom (offset + 1) (.some b 1 left low high bits) bs
    | .some lead read left low high code =>
      if low ≤ b && b ≤ high then
        let code := code * 64 + b.toNat % 64
        if left ≤ 1 then (Char.ofNat code :: ·) <$> decodeFrom (offset + 1) .none bs
        else decodeFrom (offset + 1) (.some lead (read + 1) (left - 1) 0x80 0xBF code) bs
      else
        .error { first := offset - read, count := read, lead, reason := .invalidContinuation }

/-- The characters that the bytes encode, or the first fault. -/
def decode (bytes : List UInt8) : Except Fault (List Char) := decodeFrom 0 .none bytes

end Utf8

/-- Line ends of all kinds become single newlines. -/
def unifyLines : List Char → List Char
  | '\r' :: '\n' :: cs => '\n' :: unifyLines cs
  | '\r' :: cs => '\n' :: unifyLines cs
  | c :: cs => c :: unifyLines cs
  | [] => []

end Text
end ModuleAudit
