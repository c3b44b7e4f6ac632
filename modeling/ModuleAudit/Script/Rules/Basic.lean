import ModuleAudit.Grammar.Automaton
import ModuleAudit.Script.Construct
import ModuleAudit.Script.Dialect
import ModuleAudit.Script.Token

/-
The vocabulary in which the rules of scripts are written.

Tokens and constructs stand for themselves in a rule, and a string stands for the token with that
spelling.  The levels are the ranks of expressions, from member access down to assignment, and a
few that settle what a brace or a word in front of a statement belongs to.
-/

namespace ModuleAudit
namespace Script

/-- The ranks that steps of rules have. -/
inductive Level where
  | member
  | templateCall
  | call
  | new
  | instantiation
  | extends
  | unaryVoid
  | unary
  | binaryExp
  | binaryTimes
  | binaryPlus
  | binaryShift
  | binaryCompare
  | binaryRelation
  | binaryEquality
  | bitwiseAnd
  | bitwiseXor
  | bitwiseOr
  | logicalAnd
  | logicalOr
  | binary
  | choice
  | assign
  | declare
  | literal
  | object
  deriving DecidableEq, Repr, Hashable

namespace Rules

abbrev Rule := Grammar.Rule Token Construct Level

/-- A construct with its rule. -/
abbrev Entry := Construct × Rule

instance : Coe Construct Rule := ⟨.construct⟩

instance : Coe Token Rule := ⟨.token⟩

instance : Coe String Rule := ⟨fun spelling => .token (.text spelling)⟩

def seq (parts : List Rule) : Rule := Grammar.Rule.seq parts

def oneOf (alternatives : List Rule) : Rule := Grammar.Rule.oneOf alternatives

def opt (r : Rule) : Rule := r.opt

/-- Any number of times. -/
def many (r : Rule) : Rule := r.many

/-- Some words, one of which is written. -/
def oneWord (words : List String) : Rule := oneOf (words.map fun w => .token (.text w))

/-- One or more items with commas between them. -/
def commas1 (item : Rule) : Rule := seq [item, many (seq [",", item])]

/-- Items with commas between them. -/
def commas (item : Rule) : Rule := opt (commas1 item)

/-- A part of a sequence that is there under a condition. -/
def given (condition : Bool) (r : Rule) : Rule := if condition then r else .empty

/-- An alternative that is there under a condition. -/
def only (condition : Bool) (r : Rule) : Rule := if condition then r else .never

def openBrace : Rule := "\x7b"

def closeBrace : Rule := "\x7d"

def braced (r : Rule) : Rule := seq [openBrace, r, closeBrace]

def name : Rule := Token.name

/-- The end of a statement. -/
def semicolon : Rule := oneOf [Token.automaticSemicolon, ";"]

/-- A semicolon that may be supplied but is not needed. -/
def supplied : Rule := opt Token.automaticSemicolon

/-- Keywords that are names as well wherever an expression can stand. -/
def softWords (d : Dialect) : Rule :=
  oneOf [only d.typed (oneWord ["declare", "namespace", "type", "public", "private", "protected",
      "override", "readonly", "module", "any", "number", "boolean", "string", "symbol", "object",
      "new"]),
    oneWord ["get", "set", "async", "static", "export", "let"]]

def decorators : Rule := many Construct.decorator

end Rules
end Script
end ModuleAudit
