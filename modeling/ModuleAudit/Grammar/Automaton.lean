import ModuleAudit.Grammar.Place
import ModuleAudit.Grammar.TokenSet

/-
The automaton of a language.

A `Language` is given by the rules of its constructs.  Its automaton holds the places of the rules
and two tables over them: the tokens that can come first at a place, and for every construct the
places one step into it or into a construct at its left edge.  States and actions are worked out
from these tables when a text is read.
-/

namespace ModuleAudit
namespace Grammar

/-- An entry in an order of ranks: a rank by its name, or any step of a construct. -/
inductive Mark (κ ρ : Type) where
  | rank (name : ρ)
  | of (construct : κ)

structure Language (τ κ ρ : Type) where
  /-- The constructs and how they are written, the one for a whole text first.  Of two equal
  readings the one whose constructs come earlier here is kept. -/
  rules : List (κ × Rule τ κ ρ)
  /-- Each list goes from strong to weak; the first list that has both sides decides. -/
  orders : List (List (Mark κ ρ))
  /-- The end of the text. -/
  finish : τ
  /-- Names; keywords are names wherever no rule admits them as keywords. -/
  name : τ
  /-- Stands among the expected tokens where a reserved word is a name. -/
  anyName : τ
  /-- Words that are never names otherwise. -/
  reserved : List τ
  /-- Tokens that may stand anywhere. -/
  extras : List τ

/-- A place one step into a construct that starts where another one starts. -/
structure Start where
  target : Nat
  /-- Tokens that can follow the construct of `target`. -/
  ahead : TokenSet
  /-- What follows the outer construct can follow that of `target` as well. -/
  inherits : Bool

/-- The places one step into a construct, by the number of the token or construct stepped over. -/
structure Edge where
  byToken : Array (List Start)
  byConstruct : Array (List Start)

instance : Inhabited Edge := ⟨⟨#[], #[]⟩⟩

namespace Edge

def starts (e : Edge) : Symbol → List Start
  | .token n => e.byToken.getD n []
  | .construct n => e.byConstruct.getD n []

end Edge

structure Automaton (τ κ ρ : Type) where
  tokens : Array τ
  kinds : Array κ
  /-- Constructs from this number on are repetitions. -/
  ownConstructs : Nat
  places : Array (Place ρ)
  /-- The place in front of a whole text. -/
  root : Nat
  /-- The tokens that can come first at a place. -/
  firsts : Array TokenSet
  edges : Array (Thunk Edge)
  orders : List (List (Mark Nat ρ))
  reserved : TokenSet
  extras : TokenSet

namespace Automaton

/-- The end of the text is token 0 in every automaton. -/
def finish : Nat := 0

/-- The mark for places where reserved words are names. -/
def anyName : Nat := 1

/-- Names. -/
def name : Nat := 2

/-- Applies `f` until nothing changes, at most `room` times. -/
def settle {α : Type} [DecidableEq α] (f : α → α) : Nat → α → α
  | 0, x => x
  | room + 1, x =>
    let y := f x
    if y = x then x else settle f room y

/-! ## First tokens -/

/-- The tokens that the symbol of a move can start with, given those of the constructs. -/
def moveFirst (constructs : Array TokenSet) (m : Move) : TokenSet :=
  match m.symbol with
  | .token n => if m.anyName && n == name then .ofList [n, anyName] else .single n
  | .construct n => constructs.getD n .empty

def tailFirst (constructs : Array TokenSet) (t : Tail) : TokenSet :=
  t.moves.foldl (fun set m => set.union (moveFirst constructs m)) .empty

/-- The first tokens of every construct. -/
def constructFirsts (opening : Array Tail) : Array TokenSet :=
  settle (fun firsts => opening.map (tailFirst firsts)) (opening.size + 1)
    (opening.map fun _ => .empty)

/-! ## Left edges -/

/-- How a construct at the left edge of another one may be followed. -/
structure Follow where
  ahead : TokenSet
  inherits : Bool
  deriving DecidableEq

namespace Follow

def union (a b : Follow) : Follow := ⟨a.ahead.union b.ahead, a.inherits || b.inherits⟩

/-- How a construct is followed that is read right in front of a place, inside a construct that
is followed by `outer`. -/
def through {ρ : Type} (places : Array (Place ρ)) (firsts : Array TokenSet) (outer : Follow)
    (target : Nat) : Follow :=
  let first := firsts.getD target .empty
  if (places.getD target default).tail.ends then ⟨first.union outer.ahead, outer.inherits⟩
  else ⟨first, false⟩

end Follow

variable {τ κ ρ : Type}

/-- Adds the constructs that start where one of the given constructs starts. -/
def widen (places : Array (Place ρ)) (opening : Array Tail) (firsts : Array TokenSet)
    (follows : Array (Option Follow)) : Array (Option Follow) :=
  follows.zipIdx.foldl (fun result (follow, n) =>
    match follow with
    | none => result
    | some outer =>
      (opening.getD n default).moves.foldl (fun result m =>
        match m.symbol with
        | .token _ => result
        | .construct k =>
          let inner := outer.through places firsts m.target
          result.modify k fun known => some (known.elim inner inner.union)) result) follows

/-- All constructs at the left edge of construct `n`, itself included. -/
def leftEdge (places : Array (Place ρ)) (opening : Array Tail) (firsts : Array TokenSet) (n : Nat) :
    Array (Option Follow) :=
  let none' := opening.map fun _ => (none : Option Follow)
  settle (widen places opening firsts) (opening.size + 1)
    (none'.modify n fun _ => some ⟨.empty, true⟩)

/-- The starts of the constructs at a left edge. -/
def edgeOf (tokenCount : Nat) (opening : Array Tail) (follows : Array (Option Follow)) : Edge :=
  let blank : Edge :=
    ⟨Array.replicate tokenCount [], opening.map fun _ => []⟩
  let full := follows.zipIdx.foldl (fun edge (follow, n) =>
    match follow with
    | none => edge
    | some f =>
      (opening.getD n default).moves.foldl (fun edge m =>
        let start : Start := ⟨m.target, f.ahead, f.inherits⟩
        match m.symbol with
        | .token k => { edge with byToken := edge.byToken.modify k (start :: ·) }
        | .construct k => { edge with byConstruct := edge.byConstruct.modify k (start :: ·) }) edge)
    blank
  let sorted := fun (starts : List Start) => starts.mergeSort fun a b => a.target ≤ b.target
  ⟨full.byToken.map sorted, full.byConstruct.map sorted⟩

/-! ## Construction -/

variable [DecidableEq τ] [Hashable τ] [DecidableEq κ] [Hashable κ] [DecidableEq ρ] [Hashable ρ]

/-- An order with the constructs by number. -/
def numberedOrder (numbers : Std.HashMap κ Nat) (order : List (Mark κ ρ)) : List (Mark Nat ρ) :=
  order.filterMap fun
    | .rank r => some (.rank r)
    | .of k => numbers[k]?.map .of

def ofLanguage (language : Language τ κ ρ) : Automaton τ κ ρ :=
  let start : Numbering τ κ ρ :=
    .start [language.finish, language.anyName, language.name] (language.rules.map (·.1))
  let (opening, numbering) := (Numbering.openings (language.rules.map (·.2))).run start
  let (root, numbering) := (Numbering.place
    { owner := 0, rank := .plain, side := none, score := 0, tail := opening.getD 0 default }).run
    numbering
  -- Extras that no rule mentions are numbered last.
  let (extras, numbering) := (language.extras.mapM Numbering.token).run numbering
  let constructs := constructFirsts opening
  let firsts := numbering.places.map fun p => tailFirst constructs p.tail
  let numberOf := fun t => numbering.tokenNumbers[t]?
  { tokens := numbering.tokens
    kinds := (language.rules.map (·.1)).toArray
    ownConstructs := language.rules.length
    places := numbering.places
    root
    firsts
    edges := Array.ofFn fun n : Fin opening.size => Thunk.mk fun _ =>
      edgeOf numbering.tokens.size opening (leftEdge numbering.places opening firsts n)
    orders := language.orders.map (numberedOrder numbering.constructNumbers)
    reserved := .ofList (language.reserved.filterMap numberOf)
    extras := .ofList (extras.filterMap fun | .token n => some n | _ => none) }

end Automaton
end Grammar
end ModuleAudit
