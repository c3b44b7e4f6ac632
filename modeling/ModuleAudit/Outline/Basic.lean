/-
Outlines: labelled trees, and their drawing with box characters.

An outline is a list of nodes.  A node has a label and further nodes below it; a `leaf` is a node
that stands for a remark and has nothing below it.  Siblings have different labels, which
`Outline.put` sees to.  The drawing goes through the nodes with an explicit stack of the lists
still to be drawn.
-/

namespace ModuleAudit

inductive Outline where
  | leaf (label : String)
  | node (label : String) (children : List Outline)
  deriving Repr

namespace Outline

def label : Outline → String
  | leaf label => label
  | node label _ => label

def children : Outline → List Outline
  | leaf _ => []
  | node _ children => children

/-- Adds a node to its siblings.  A sibling with the same label is replaced in its place. -/
def put : List Outline → Outline → List Outline
  | [], new => [new]
  | old :: rest, new => if old.label == new.label then new :: rest else old :: put rest new

/-- Adds nodes one after the other. -/
def putAll (nodes : List Outline) : List Outline := nodes.foldl put []

mutual

/-- The number of nodes of an outline. -/
def size : Outline → Nat
  | leaf _ => 1
  | node _ children => sizes children + 1

/-- The number of nodes of several outlines. -/
def sizes : List Outline → Nat
  | [] => 0
  | o :: rest => o.size + sizes rest

end

theorem sizes_children (o : Outline) : sizes o.children + 1 = o.size := by
  cases o <;> simp [children, size, sizes]

/-! ## Drawing -/

/-- What is left to draw: nodes of one level, behind the lines of the levels above. -/
structure Level where
  margin : String
  nodes : List Outline

/-- The steps that drawing some levels takes. -/
def work : List Level → Nat
  | [] => 0
  | level :: rest => 2 * sizes level.nodes + 1 + work rest

/-- The branch in front of a label. -/
def branch (last : Bool) : String := if last then "└─ " else "├─ "

/-- The margin of the nodes below a node. -/
def indent (last : Bool) : String := if last then "   " else "│  "

/-- The lines of the levels, innermost level first.  After a node come the nodes below it. -/
def drawLevels (levels : List Level) : List String :=
  match levels with
  | [] => []
  | { nodes := [], .. } :: rest => drawLevels rest
  | { margin, nodes := o :: nodes } :: rest =>
    let last := nodes.isEmpty
    let below :=
      if o.children.isEmpty then []
      else [{ margin := margin ++ indent last, nodes := o.children : Level }]
    (margin ++ branch last ++ o.label) :: drawLevels (below ++ { margin, nodes } :: rest)
termination_by work levels
decreasing_by
  · simp [work, sizes]
  · have := sizes_children o
    split <;> simp [work, sizes] <;> omega

/-- The lines of one outline: its label, and below it the nodes it holds. -/
def lines (o : Outline) : List String :=
  o.label :: if o.children.isEmpty then [] else drawLevels [{ margin := "", nodes := o.children }]

/-- The drawing of outlines, one below the other. -/
def draw (outlines : List Outline) : String := "\n".intercalate (outlines.flatMap lines)

end Outline
end ModuleAudit
