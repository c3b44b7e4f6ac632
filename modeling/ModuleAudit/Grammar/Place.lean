import ModuleAudit.Grammar.Rule
import Std.Data.HashMap

/-
Places: the points inside the rules of a language that a reader can have come to.

A place knows the construct it belongs to, the steps that can be taken from it, and whether the
construct may end there.  Two points of a rule from which the same can follow are one place.
Tokens and constructs are numbered as they are met; every repetition in a rule is a construct of
its own, shared by all rules that repeat the same thing.
-/

namespace ModuleAudit
namespace Grammar

inductive Symbol where
  | token (n : Nat)
  | construct (n : Nat)
  deriving DecidableEq, Repr, Hashable, Inhabited

/-- A step from a place to the next. -/
structure Move where
  symbol : Symbol
  /-- A name that is read here may be a reserved word. -/
  anyName : Bool
  target : Nat
  deriving DecidableEq, Repr, Hashable

/-- What can follow a point of a rule. -/
structure Tail where
  ends : Bool
  moves : List Move
  deriving DecidableEq, Repr, Hashable, Inhabited

namespace Tail

/-- The end of a rule. -/
def stop : Tail := ⟨true, []⟩

def union (a b : Tail) : Tail := ⟨a.ends || b.ends, (a.moves ++ b.moves).eraseDups⟩

end Tail

structure Place (ρ : Type) where
  /-- The construct that is being read. -/
  owner : Nat
  /-- The rank, side and score of the step that led here. -/
  rank : Rank ρ
  side : Option Side
  score : Int
  tail : Tail
  deriving DecidableEq, Repr, Hashable

instance {ρ : Type} : Inhabited (Place ρ) := ⟨⟨0, .plain, none, 0, default⟩⟩

/-- Numbers given out so far.  Constructs of the language come first, in a fixed order, then the
repetitions. -/
structure Numbering (τ κ ρ : Type) [DecidableEq τ] [Hashable τ] [DecidableEq κ] [Hashable κ]
    [DecidableEq ρ] [Hashable ρ] where
  tokens : Array τ
  tokenNumbers : Std.HashMap τ Nat
  constructNumbers : Std.HashMap κ Nat
  repetitions : Array (Rule τ κ ρ)
  repetitionNumbers : Std.HashMap (Rule τ κ ρ) Nat
  places : Array (Place ρ)
  placeNumbers : Std.HashMap (Place ρ) Nat

namespace Numbering

variable {τ κ ρ : Type} [DecidableEq τ] [Hashable τ] [DecidableEq κ] [Hashable κ] [DecidableEq ρ]
  [Hashable ρ]

/-- The numbering before any rule is looked at; `constructs` have their numbers already. -/
def start (tokens : List τ) (constructs : List κ) : Numbering τ κ ρ where
  tokens := tokens.toArray
  tokenNumbers := .ofList tokens.zipIdx
  constructNumbers := .ofList constructs.zipIdx
  repetitions := #[]
  repetitionNumbers := ∅
  places := #[]
  placeNumbers := ∅

abbrev Numbered (τ κ ρ : Type) [DecidableEq τ] [Hashable τ] [DecidableEq κ] [Hashable κ]
    [DecidableEq ρ] [Hashable ρ] := StateM (Numbering τ κ ρ)

def token (t : τ) : Numbered τ κ ρ Symbol := do
  let s ← get
  match s.tokenNumbers[t]? with
  | some n => return .token n
  | none =>
    let n := s.tokens.size
    set { s with tokens := s.tokens.push t, tokenNumbers := s.tokenNumbers.insert t n }
    return .token n

/-- A construct without a number stands for nothing and takes one that no rule belongs to. -/
def construct (k : κ) : Numbered τ κ ρ Symbol := do
  let s ← get
  return .construct (s.constructNumbers.getD k s.constructNumbers.size)

def repetition (r : Rule τ κ ρ) : Numbered τ κ ρ Symbol := do
  let s ← get
  match s.repetitionNumbers[r]? with
  | some n => return .construct n
  | none =>
    let n := s.constructNumbers.size + 1 + s.repetitions.size
    set { s with
      repetitions := s.repetitions.push r, repetitionNumbers := s.repetitionNumbers.insert r n }
    return .construct n

def place (p : Place ρ) : Numbered τ κ ρ Nat := do
  let s ← get
  match s.placeNumbers[p]? with
  | some n => return n
  | none =>
    let n := s.places.size
    set { s with places := s.places.push p, placeNumbers := s.placeNumbers.insert p n }
    return n

/-- What the rules around a step say about it. -/
structure Setting (ρ : Type) where
  owner : Nat
  rank : Rank ρ
  side : Option Side
  score : Int
  anyName : Bool

/-- The one step over `symbol`, with `tail` behind it. -/
def step (here : Setting ρ) (symbol : Symbol) (tail : Tail) : Numbered τ κ ρ Tail := do
  let target ← place
    { owner := here.owner, rank := here.rank, side := here.side, score := here.score, tail }
  return ⟨false, [⟨symbol, here.anyName, target⟩]⟩

/-- What can follow in front of a rule, given what can follow behind it. -/
def before (here : Setting ρ) : Rule τ κ ρ → Tail → Numbered τ κ ρ Tail
  | .never, _ => return ⟨false, []⟩
  | .empty, tail => return tail
  | .token t, tail => do step here (← token t) tail
  | .construct k, tail => do step here (← construct k) tail
  | .repeated r, tail => do step here (← repetition r) tail
  | .both first second, tail => do before here first (← before here second tail)
  | .either first second, tail => do
    return (← before here first tail).union (← before here second tail)
  | .ranked rank side r, tail => before { here with rank, side := side.or here.side } r tail
  | .scored score r, tail => before { here with score } r tail
  | .anyName r, tail => before { here with anyName := true } r tail

/-- What can follow at the start of construct number `owner`. -/
def opening (owner : Nat) (rule : Rule τ κ ρ) : Numbered τ κ ρ Tail :=
  before { owner, rank := .plain, side := none, score := 0, anyName := false } rule .stop

/-- A repetition is what is repeated, or two repetitions side by side. -/
def repetitionOpening (owner : Nat) (rule : Rule τ κ ρ) : Numbered τ κ ρ Tail := do
  let here : Setting ρ := { owner, rank := .plain, side := none, score := 0, anyName := false }
  let last ← step here (.construct owner) .stop
  return (← step here (.construct owner) last).union (← before here rule .stop)

/-- The openings of the repetitions from number `done` on.  The ones that are met on the way are
opened as well, as long as there is `room`. -/
def repetitionOpenings : (room done : Nat) → Numbered τ κ ρ (List Tail)
  | 0, _ => return []
  | room + 1, done => do
    let s ← get
    match s.repetitions[done]? with
    | none => return []
    | some r =>
      let tail ← repetitionOpening (s.constructNumbers.size + 1 + done) r
      return tail :: (← repetitionOpenings room (done + 1))

/-- The openings of all constructs, by number: those of the language, an empty one for the number
that no rule belongs to, and the repetitions. -/
def openings (rules : List (Rule τ κ ρ)) : Numbered τ κ ρ (Array Tail) := do
  let own ← rules.zipIdx.mapM fun (rule, owner) => opening owner rule
  let repetitions ← repetitionOpenings 1000 0
  return (own ++ ⟨false, []⟩ :: repetitions).toArray

end Numbering
end Grammar
end ModuleAudit
