import ModuleAudit.Grammar.Automaton

/-
States: all places a reader may be at.

A state is a list of entries, sorted and without repetition.  An entry is a place, the number of
parts of its construct that have been read, and the tokens that may follow the construct.
-/

namespace ModuleAudit
namespace Grammar

structure Entry where
  place : Nat
  length : Nat
  ahead : TokenSet
  deriving DecidableEq, Repr

namespace Entry

def precedes (a b : Entry) : Bool :=
  a.place < b.place || (a.place == b.place && a.length < b.length)

/-- The entries of both lists; those at the same place are joined. -/
def merge : List Entry → List Entry → List Entry
  | [], t => t
  | s, [] => s
  | a :: s, b :: t =>
    if a.precedes b then a :: merge s (b :: t)
    else if b.precedes a then b :: merge (a :: s) t
    else { a with ahead := a.ahead.union b.ahead } :: merge s t
termination_by s t => s.length + t.length

variable {τ κ ρ : Type}

/-- The entries one step into construct `n`, over `symbol`, if `behind` may come after it. -/
def enter (a : Automaton τ κ ρ) (n : Nat) (symbol : Symbol) (behind : TokenSet) : List Entry :=
  match a.edges[n]? with
  | none => []
  | some edge =>
    (edge.get.starts symbol).foldr (fun s rest =>
      let ahead := if s.inherits then s.ahead.union behind else s.ahead
      merge [⟨s.target, 1, ahead⟩] rest) []

/-- Where an entry leads by one of its moves, when `symbol` is read next. -/
def along (a : Automaton τ κ ρ) (symbol : Symbol) (e : Entry) (m : Move) : List Entry :=
  let onward := if m.symbol = symbol then [{ e with place := m.target, length := e.length + 1 }]
    else []
  match m.symbol with
  | .token _ => onward
  | .construct n =>
    let first := a.firsts.getD m.target .empty
    let behind :=
      if (a.places.getD m.target default).tail.ends then first.union e.ahead else first
    merge onward (enter a n symbol behind)

end Entry

structure State where
  entries : List Entry
  deriving DecidableEq, Repr

namespace State

variable {τ κ ρ : Type}

/-- The state in front of a text. -/
def initial (a : Automaton τ κ ρ) : State := ⟨[⟨a.root, 0, .single Automaton.finish⟩]⟩

/-- The state after `symbol` has been read. -/
def next (a : Automaton τ κ ρ) (s : State) (symbol : Symbol) : State :=
  ⟨s.entries.foldl (fun result e =>
    (a.places.getD e.place default).tail.moves.foldl (fun result m =>
      Entry.merge result (e.along a symbol m)) result) []⟩

/-- The tokens that can come next. -/
def expected (a : Automaton τ κ ρ) (s : State) : TokenSet :=
  s.entries.foldl (fun set e =>
    let set := set.union (a.firsts.getD e.place .empty)
    if (a.places.getD e.place default).tail.ends then set.union e.ahead else set) a.extras

/-- Whether a reserved word is a name here. -/
def admitsAnyName (a : Automaton τ κ ρ) (s : State) : Bool :=
  (s.expected a).contains Automaton.anyName

end State
end Grammar
end ModuleAudit
