import ModuleAudit.Grammar.State

/-
Actions: what a reader does at a token.

A token may be shifted, or the construct just read may be closed in front of it.  Where both are
possible, or two constructs could be closed, ranks and sides decide; what they leave open is kept
as several actions, and the reader follows all of them.
-/

namespace ModuleAudit
namespace Grammar

inductive Action where
  | shift
  /-- Close construct `construct`, made of the last `length` parts. -/
  | close (construct length : Nat) (score : Int)
  /-- Skip a token that may stand anywhere. -/
  | skip
  deriving DecidableEq, Repr

/-- One side of a comparison: a rank, and the constructs whose steps have it. -/
structure Standing (ρ : Type) where
  rank : Rank ρ
  owners : List Nat

namespace Standing

variable {ρ : Type} [DecidableEq ρ]

def bears (s : Standing ρ) : Mark Nat ρ → Bool
  | .rank name => s.rank == .named name
  | .of owner => s.owners.contains owner

/-- What one list of marks says of two sides.  `seenLeft` and `seenRight` tell which of them have
been met. -/
def orderBy (l r : Standing ρ) (seenLeft seenRight : Bool) : List (Mark Nat ρ) → Option Ordering
  | [] => none
  | mark :: rest =>
    if l.bears mark then if seenRight then some .lt else orderBy l r true seenRight rest
    else if r.bears mark then if seenLeft then some .gt else orderBy l r seenLeft true rest
    else orderBy l r seenLeft seenRight rest

/-- How two sides compare; `.gt` if the first one is stronger. -/
def compareWith (orders : List (List (Mark Nat ρ))) (l r : Standing ρ) : Ordering :=
  let named := ((orders.findSome? (orderBy l r false false))).getD .eq
  match l.rank, r.rank with
  | .number m, .number n => if m = 0 ∧ n = 0 then named else compare m n
  | _, _ => named

end Standing

/-- The constructs that can be closed in front of a token, as far as ranks have not ruled them
out. -/
structure Closings (ρ : Type) where
  standing : Standing ρ
  sides : List (Option Side)
  actions : List Action

namespace State

variable {τ κ ρ : Type} [DecidableEq ρ]

/-- Adds one more construct that could be closed, by the rank of its last step. -/
def addClosing (a : Automaton τ κ ρ) (known : Option (Closings ρ)) (e : Entry) :
    Option (Closings ρ) :=
  let p := a.places.getD e.place default
  let action := Action.close p.owner e.length p.score
  let alone : Closings ρ := ⟨⟨p.rank, [p.owner]⟩, [p.side], [action]⟩
  match known with
  | none => some alone
  | some c =>
    match Standing.compareWith a.orders ⟨p.rank, [p.owner]⟩ c.standing with
    | .gt => some alone
    | .lt => some c
    | .eq =>
      some ⟨⟨p.rank, p.owner :: c.standing.owners⟩, p.side :: c.sides,
        if c.actions.contains action then c.actions else c.actions ++ [action]⟩

/-- The entries whose construct can be closed in front of `token`. -/
def closable (a : Automaton τ κ ρ) (s : State) (token : Nat) : List Entry :=
  s.entries.filter fun e =>
    (a.places.getD e.place default).tail.ends && e.ahead.contains token

/-- The entries that have been begun and can go on with `token`. -/
def continuable (a : Automaton τ κ ρ) (s : State) (token : Nat) : List Entry :=
  s.entries.filter fun e => 0 < e.length && (a.firsts.getD e.place .empty).contains token

/-- The token can be read as the next step of some construct. -/
def shiftable (a : Automaton τ κ ρ) (s : State) (token : Nat) : Bool :=
  s.entries.any fun e => (a.firsts.getD e.place .empty).contains token

/-- Decides between closing and shifting.  A conflict inside one repetition closes it.  Otherwise
the stronger side wins; between equals the side of the closed constructs decides if they agree on
one. -/
def arbitrate (a : Automaton τ κ ρ) (closings : Closings ρ) (closable continuable : List Entry) :
    List Action :=
  let owner := fun (e : Entry) => (a.places.getD e.place default).owner
  let owners := (closable ++ continuable).map owner
  let repetition := owners.head?.any fun n => a.ownConstructs ≤ n && owners.all (· == n)
  let compared := continuable.map fun e =>
    let p := a.places.getD e.place default
    Standing.compareWith a.orders ⟨p.rank, [p.owner]⟩ closings.standing
  let stronger := compared.contains .gt
  let weaker := compared.contains .lt
  if repetition then closings.actions
  else if stronger && weaker then closings.actions ++ [.shift]
  else if stronger then [.shift]
  else if weaker then closings.actions
  else if closings.sides.all (· == some .left) then closings.actions
  else if closings.sides.all (· == some .right) then [.shift]
  else closings.actions ++ [.shift]

/-- All that can be done at `token`. -/
def actions (a : Automaton τ κ ρ) (s : State) (token : Nat) : List Action :=
  let closable := s.closable a token
  let shiftable := s.shiftable a token
  match closable.foldl (addClosing a) none with
  | none =>
    if shiftable then [.shift] else if a.extras.contains token then [.skip] else []
  | some closings =>
    if shiftable then arbitrate a closings closable (s.continuable a token)
    else closings.actions

end State
end Grammar
end ModuleAudit
