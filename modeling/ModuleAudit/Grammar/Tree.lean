/-
Syntax trees.

Nothing of a text is lost in its tree: a leaf holds the token, the blanks in front of it and its
own characters.  The items of a repetition are kept in a node without a kind.
-/

namespace ModuleAudit
namespace Grammar

inductive Tree (τ κ : Type) where
  | leaf (token : τ) (lead text : String)
  | node (kind : κ) (parts : List (Tree τ κ))
  | run (parts : List (Tree τ κ))
  deriving Repr

namespace Tree

variable {τ κ : Type}

instance : Inhabited (Tree τ κ) := ⟨.run []⟩

def parts : Tree τ κ → List (Tree τ κ)
  | leaf .. => []
  | node _ parts => parts
  | run parts => parts

mutual

/-- The characters of a tree, the blanks in front of its first leaf among them. -/
def content : Tree τ κ → String
  | leaf _ lead text => lead ++ text
  | node _ parts => contents parts
  | run parts => contents parts

def contents : List (Tree τ κ) → String
  | [] => ""
  | t :: rest => t.content ++ contents rest

end

mutual

/-- Compares two trees from the top down and from left to right, by `rank` and by the number of
parts.  The first difference decides. -/
def compareBy (rank : Tree τ κ → Nat) : Tree τ κ → Tree τ κ → Ordering
  | leaf token lead text, t => compare (rank (leaf token lead text)) (rank t)
  | node kind parts, t =>
    (compare (rank (node kind parts)) (rank t)).then
      ((compare parts.length t.parts.length).then (comparePartsBy rank parts t.parts))
  | run parts, t =>
    (compare (rank (run parts)) (rank t)).then
      ((compare parts.length t.parts.length).then (comparePartsBy rank parts t.parts))

def comparePartsBy (rank : Tree τ κ → Nat) : List (Tree τ κ) → List (Tree τ κ) → Ordering
  | s :: ss, t :: ts => (compareBy rank s t).then (comparePartsBy rank ss ts)
  | _, _ => .eq

end

end Tree
end Grammar
end ModuleAudit
