import ModuleAudit.Grammar.Action
import ModuleAudit.Grammar.Tree

/-
Readings: the ways in which a text has been understood so far.

The trees that a reading has built lie on a stack.  Readings that have come to the same state at
the same point of the text go on as one, so the stacks together form a graph: a node is a state at
a point of the text, and a link holds the tree between two nodes.  Different links of one node are
different ways to read the text in front of it.
-/

namespace ModuleAudit
namespace Grammar

/-- A tree on a stack, and the node that it stands on. -/
structure Link (τ κ : Type) where
  symbol : Symbol
  /-- A token that may stand anywhere. -/
  extra : Bool
  score : Int
  tree : Tree τ κ
  below : Nat

instance {τ κ : Type} : Inhabited (Link τ κ) := ⟨⟨default, false, 0, default, 0⟩⟩

structure Node (τ κ : Type) where
  state : State
  offset : Nat
  /-- The text from `offset` on. -/
  rest : List Char
  /-- The highest score of a reading that leads here. -/
  score : Int
  links : List (Link τ κ)

instance {τ κ : Type} : Inhabited (Node τ κ) := ⟨⟨⟨[]⟩, 0, [], 0, []⟩⟩

namespace Node

variable {τ κ : Type}

/-- Two readings at these nodes can go on as one. -/
def meets (a b : Node τ κ) : Bool := a.offset == b.offset && a.state == b.state

end Node

structure Readings (τ κ : Type) where
  nodes : Array (Node τ κ)
  /-- The top nodes of the readings; none for a reading that was given up. -/
  tops : Array (Option Nat)
  /-- The best tree of a whole text so far, with its score. -/
  best : Option (Tree τ κ × Int)

namespace Readings

variable {τ κ ρ : Type}

/-- A node has at most this many links. -/
def maxLinks : Nat := 8

/-- At most this many ways are looked at when a construct is closed. -/
def maxPaths : Nat := 64

/-- At most this many readings are followed at a time. -/
def maxReadings : Nat := 6

def node (r : Readings τ κ) (n : Nat) : Node τ κ := r.nodes.getD n default

def push (r : Readings τ κ) (n : Node τ κ) : Readings τ κ × Nat :=
  let place := r.nodes.size
  ({ r with nodes := r.nodes.push n }, place)

/-! ## Joining readings -/

/-- Two links hold a tree of the same outer shape over the same piece of text. -/
def alike (nodes : Array (Node τ κ)) (a b : Link τ κ) : Bool :=
  a.symbol == b.symbol && a.extra == b.extra && a.tree.parts.length == b.tree.parts.length &&
    (nodes.getD a.below default).offset == (nodes.getD b.below default).offset

/-- Adds a link to node `n`.  Of two trees of the same shape between the same nodes the one with
the higher score is kept; if only the upper nodes agree, the lower ones are joined first. -/
def attach : (room : Nat) → Array (Node τ κ) → Nat → Link τ κ → Array (Node τ κ)
  | 0, nodes, _, _ => nodes
  | room + 1, nodes, n, link =>
    let lower := nodes.getD link.below default
    let links := (nodes.getD n default).links
    let score := lower.score + link.score
    let raised := fun (nodes : Array (Node τ κ)) =>
      nodes.modify n fun u => { u with score := max u.score score }
    let known := links.findIdx? fun l => alike nodes l link &&
      (l.below == link.below || (nodes.getD l.below default).meets lower)
    if link.below == n then nodes
    else
      match known with
      | none =>
        if links.length < maxLinks then
          raised (nodes.modify n fun u => { u with links := u.links ++ [link] })
        else nodes
      | some k =>
        let old := links.getD k default
        if old.below == link.below then
          if old.score < link.score then
            nodes.modify n fun u => { u with score, links := u.links.set k link }
          else nodes
        else raised (lower.links.foldl (fun nodes l => attach room nodes old.below l) nodes)

/-- Joins node `other` into node `n`. -/
def join (r : Readings τ κ) (n other : Nat) : Readings τ κ :=
  { r with nodes := (r.node other).links.foldl (attach r.nodes.size · n ·) r.nodes }

/-! ## Closing a construct -/

/-- A way down a stack: the links taken so far, the node left, and how many trees are still to be
taken. -/
structure Descent (τ κ : Type) where
  taken : List (Link τ κ)
  base : Nat
  missing : Nat

/-- Takes one more link.  Tokens that may stand anywhere are taken along and not counted. -/
def Descent.take (d : Descent τ κ) (l : Link τ κ) : Descent τ κ :=
  ⟨l :: d.taken, l.below, if l.extra then d.missing else d.missing - 1⟩

/-- Goes one link down on every way, `known` of them in all.  The first link of a node carries its
way on; the others open new ways behind all others, as long as there is room for them. -/
def descend (nodes : Array (Node τ κ)) (known : Nat) :
    List (Descent τ κ) → List (Descent τ κ) × List (Descent τ κ)
  | [] => ([], [])
  | d :: rest =>
    match (nodes.getD d.base default).links with
    | [] => descend nodes (known - 1) rest
    | l :: others =>
      let opened := (others.take (maxPaths - known)).map d.take
      let (on, new) := descend nodes (known + opened.length) rest
      (d.take l :: on, opened ++ new)

/-- The ways to take trees off a stack, all followed at the same pace; the shortest come first. -/
def paths (nodes : Array (Node τ κ)) : (room : Nat) → List (Descent τ κ) → List (Descent τ κ)
  | 0, _ => []
  | room + 1, ways =>
    if ways.isEmpty then []
    else
      let (ended, ongoing) := ways.partition (·.missing == 0)
      let (on, new) := descend nodes ongoing.length ongoing
      ended ++ paths nodes room (on ++ new)

/-- The ways to take `count` trees off the stack of node `top`. -/
def pathsFrom (nodes : Array (Node τ κ)) (top count : Nat) : List (Descent τ κ) :=
  paths nodes (nodes.size + 1) [⟨[], top, count⟩]

/-- The paths that end at the same node, in the order in which the nodes are met. -/
def byBase (ps : List (Descent τ κ)) : List (Nat × List (List (Link τ κ))) :=
  (ps.map (·.base)).eraseDups.map fun base => (base, (ps.filter (·.base == base)).map (·.taken))

/-- The parts of a construct and the extra tokens behind the last of them. -/
def splitExtras (links : List (Link τ κ)) : List (Link τ κ) × List (Link τ κ) :=
  let (extras, parts) := links.reverse.span (·.extra)
  (parts.reverse, extras.reverse)

def totalScore (links : List (Link τ κ)) : Int :=
  links.foldl (fun total l => total + l.score) 0

variable [DecidableEq τ] [DecidableEq κ]

/-- The position of a tree's kind among all tokens and constructs. -/
def kindRank (a : Automaton τ κ ρ) : Tree τ κ → Nat
  | .leaf token _ _ => a.tokens.findIdx (· == token)
  | .node kind _ => a.tokens.size + a.kinds.findIdx (· == kind)
  | .run _ => a.tokens.size + a.kinds.size

/-- Whether `links` are a better choice of parts than `kept`. -/
def improves (a : Automaton τ κ ρ) (links kept : List (Link τ κ)) : Bool :=
  let trees := fun (ls : List (Link τ κ)) => Tree.run (ls.map (·.tree))
  totalScore kept < totalScore links ||
    (totalScore kept == totalScore links &&
      Tree.compareBy (kindRank a) (trees links) (trees kept) == .lt)

/-- The best of several ways to read the parts of a construct. -/
def choose (a : Automaton τ κ ρ) (ways : List (List (Link τ κ))) : List (Link τ κ) × List (Link τ κ) :=
  match ways.map splitExtras with
  | [] => ([], [])
  | first :: others =>
    others.foldl (fun kept way => if improves a way.1 kept.1 then way else kept) first

/-- The tree of construct number `construct`. -/
def treeOf (a : Automaton τ κ ρ) (construct : Nat) (parts : List (Link τ κ)) : Tree τ κ :=
  let trees := parts.map (·.tree)
  match a.kinds[construct]? with
  | some kind => .node kind trees
  | none => .run trees

/-- Puts extra tokens back on a stack.  `tops` are the nodes on which the tokens ended before. -/
def restack (r : Readings τ κ) (n : Nat) : List (Link τ κ × Nat) → Readings τ κ × Nat
  | [] => (r, n)
  | (link, top) :: rest =>
    let old := r.node top
    let base := r.node n
    let (r, n) := r.push { old with
      state := base.state, score := base.score, links := [{ link with below := n }] }
    restack r n rest

/-- Closes a construct made of the last `length` trees of node `top`, in every way that leaves a
different node.  Yields the new top nodes. -/
def closeFrom (a : Automaton τ κ ρ) (r : Readings τ κ) (top construct length : Nat) (score : Int) :
    Readings τ κ × List Nat :=
  (byBase (pathsFrom r.nodes top length)).foldl (fun (r, tops) (base, ways) =>
    let (parts, extras) := choose a ways
    let ends := (extras.map (·.below)) ++ [top]
    let bottom := r.node base
    let total := totalScore parts + score
    let endNode := r.node (ends.headD top)
    let link : Link τ κ := ⟨.construct construct, false, total, treeOf a construct parts, base⟩
    let (r, n) := r.push
      { state := bottom.state.next a (.construct construct), offset := endNode.offset
        rest := endNode.rest, score := bottom.score + total, links := [link] }
    let (r, n) := r.restack n (extras.zip (ends.drop 1))
    (r, tops ++ [n])) (r, [])

/-- Makes node `n` the top of a reading of its own, unless a reading other than `version` meets it
and takes it over.  Yields the place of the new reading, if there is one. -/
def enlist (r : Readings τ κ) (version n : Nat) : Readings τ κ × Option Nat :=
  let fresh := r.node n
  let host := (List.range r.tops.size).findSome? fun i =>
    if i == version then none
    else (r.tops.getD i none).bind fun t => if (r.node t).meets fresh then some t else none
  match host with
  | some t => (r.join t n, none)
  | none => ({ r with tops := r.tops.push (some n) }, some r.tops.size)

/-- Closes a construct in the reading at place `version`.  Yields the place of the first new
reading. -/
def close (a : Automaton τ κ ρ) (r : Readings τ κ) (version top construct length : Nat)
    (score : Int) : Readings τ κ × Option Nat :=
  let (r, tops) := closeFrom a r top construct length score
  tops.foldl (fun (r, first) n =>
    let (r, made) := r.enlist version n
    (r, first.or made)) (r, none)

/-- Takes the tree of the whole text off the stack and keeps it if it is the best. -/
def accept (a : Automaton τ κ ρ) (r : Readings τ κ) (top length : Nat) : Readings τ κ :=
  let ways := (pathsFrom r.nodes top length).map (·.taken)
  let (parts, _) := choose a ways
  let score := totalScore parts
  let tree := treeOf a 0 parts
  match r.best with
  | none => { r with best := some (tree, score) }
  | some (kept, keptScore) =>
    if keptScore < score ||
        (keptScore == score && Tree.compareBy (kindRank a) tree kept == .lt) then
      { r with best := some (tree, score) }
    else r

end Readings
end Grammar
end ModuleAudit
