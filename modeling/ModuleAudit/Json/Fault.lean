/-
Why a text is not a JSON value.
-/

namespace ModuleAudit
namespace Json

inductive Cause where
  | value
  | propertyName
  | colon
  | comma
  | extraData
  | controlCharacter
  | escape
  | codeEscape
  | unterminated
  | byteOrderMark
  deriving DecidableEq, Repr

def Cause.text : Cause → String
  | value => "Expecting value"
  | propertyName => "Expecting property name enclosed in double quotes"
  | colon => "Expecting ':' delimiter"
  | comma => "Expecting ',' delimiter"
  | extraData => "Extra data"
  | controlCharacter => "Invalid control character at"
  | escape => "Invalid \\escape"
  | codeEscape => "Invalid \\uXXXX escape"
  | unterminated => "Unterminated string starting at"
  | byteOrderMark => "Unexpected UTF-8 BOM (decode using utf-8-sig)"

/-- The values that hold others. -/
inductive Container where
  | array
  | object
  deriving DecidableEq, Repr

def Container.name : Container → String
  | array => "array"
  | object => "object"

/-- A value that lies in more containers than are followed. -/
structure TooDeep where
  container : Container
  deriving DecidableEq, Repr

/-- The most containers that may be open at once. -/
def depthLimit : Nat := 990

def TooDeep.message (fault : TooDeep) : String :=
  "maximum recursion depth exceeded while decoding a JSON " ++ fault.container.name ++
    " from a unicode string"

inductive Fault where
  /-- A mistake at an offset in the text. -/
  | syntactic (cause : Cause) (offset : Nat)
  /-- A whole number with more digits than are converted. -/
  | tooManyDigits (count : Nat)
  | tooDeep (fault : TooDeep)
  deriving DecidableEq, Repr

/-- The most digits that a whole number may have. -/
def digitLimit : Nat := 4300

/-- The line and the column of an offset, both from one. -/
def position (text : List Char) (offset : Nat) : Nat × Nat :=
  let before := text.take offset
  (before.count '\n' + 1, (before.reverse.takeWhile (· != '\n')).length + 1)

/-- The message of a fault in a text. -/
def Fault.message (text : List Char) : Fault → String
  | syntactic cause offset =>
    let (line, column) := position text offset
    cause.text ++ ": line " ++ toString line ++ " column " ++ toString column ++
      " (char " ++ toString offset ++ ")"
  | tooManyDigits count =>
    "Exceeds the limit (" ++ toString digitLimit ++
      " digits) for integer string conversion: value has " ++ toString count ++
      " digits; use sys.set_int_max_str_digits() to increase the limit"
  | tooDeep fault => fault.message

end Json
end ModuleAudit
