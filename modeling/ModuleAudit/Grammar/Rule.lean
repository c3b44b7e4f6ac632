/-
Rules: how a construct of a language is written.

A rule is a regular expression over tokens and constructs.  Its parts may carry a rank, which
decides between readings while the text is read, and a score, which decides between readings that
both reach the end.  The rules are generic in the tokens `τ`, the constructs `κ` and the names of
ranks `ρ` of a language.
-/

namespace ModuleAudit
namespace Grammar

/-- The operand that an operator of equal rank goes to. -/
inductive Side where
  | left
  | right
  deriving DecidableEq, Repr, Hashable

/-- How strongly a step of a rule binds.  Only numbers other than zero are compared as such. -/
inductive Rank (ρ : Type) where
  | number (n : Int)
  | named (name : ρ)
  deriving DecidableEq, Repr, Hashable

namespace Rank

/-- The rank of a step that has been given none. -/
def plain {ρ : Type} : Rank ρ := .number 0

end Rank

inductive Rule (τ κ ρ : Type) where
  /-- No text at all. -/
  | never
  /-- The empty text. -/
  | empty
  | token (t : τ)
  | construct (k : κ)
  | both (first second : Rule τ κ ρ)
  | either (first second : Rule τ κ ρ)
  /-- One or more times. -/
  | repeated (r : Rule τ κ ρ)
  | ranked (rank : Rank ρ) (side : Option Side) (r : Rule τ κ ρ)
  /-- Readings with a higher sum of scores win. -/
  | scored (score : Int) (r : Rule τ κ ρ)
  /-- Reserved words are names here. -/
  | anyName (r : Rule τ κ ρ)
  deriving DecidableEq, Repr, Hashable

namespace Rule

variable {τ κ ρ : Type}

def seq : List (Rule τ κ ρ) → Rule τ κ ρ
  | [] => empty
  | [r] => r
  | r :: rest => both r (seq rest)

def oneOf : List (Rule τ κ ρ) → Rule τ κ ρ
  | [] => never
  | [r] => r
  | r :: rest => either r (oneOf rest)

def opt (r : Rule τ κ ρ) : Rule τ κ ρ := either r empty

/-- Any number of times. -/
def many (r : Rule τ κ ρ) : Rule τ κ ρ := opt (repeated r)

def level (rank : ρ) (r : Rule τ κ ρ) : Rule τ κ ρ := ranked (.named rank) none r

def leftLevel (rank : ρ) (r : Rule τ κ ρ) : Rule τ κ ρ := ranked (.named rank) (some .left) r

def rightLevel (rank : ρ) (r : Rule τ κ ρ) : Rule τ κ ρ := ranked (.named rank) (some .right) r

def left (r : Rule τ κ ρ) : Rule τ κ ρ := ranked .plain (some .left) r

def right (r : Rule τ κ ρ) : Rule τ κ ρ := ranked .plain (some .right) r

end Rule
end Grammar
end ModuleAudit
