import ModuleAudit.Graph.Cycle
import ModuleAudit.Graph.Reach
import ModuleAudit.Outline.Basic

/-
The unfolding of a module graph from an entry point.

The unfolding is the tree of all chains of imports from the entry.  A chain ends where a module
comes back to one that it already holds.  Only modules that were given to the graph are followed.
`Unfolding.outline` labels the tree with paths relative to the source directory and with the
number of importers where there are several.
-/

namespace ModuleAudit

/-- A module and the modules it leads to.  A module that `repeats` is already above itself. -/
inductive Unfolding where
  | node (name : String) (repeats : Bool) (imports : List Unfolding)
  deriving Repr

namespace Unfolding

def name : Unfolding → String
  | node name _ _ => name

/-- Unfolds a module below the modules `above`, at most `room` levels deep. -/
def ofModule (g : Graph) : (room : Nat) → (above : List String) → String → Unfolding
  | 0, above, m => node m (above.contains m) []
  | room + 1, above, m =>
    if above.contains m then node m true []
    else
      node m false (((g.dependencies m).filter g.contains).map (ofModule g room (above ++ [m])))

/-- The unfolding from an entry.  Modules on a chain differ up to its last one and all but the
first were given to the graph, so there is room for every chain. -/
def ofEntry (g : Graph) (entry : String) : Unfolding := ofModule g (g.forward.length + 2) [] entry

/-- All modules of the unfolding. -/
def names : Unfolding → List String
  | node name _ imports => name :: imports.flatMap names

/-- The chains from the top that end in a module already on them, leftmost first.  `above` is the
chain down to the node. -/
def returns (above : List String) : Unfolding → List (List String)
  | node name repeats imports =>
    let chain := above ++ [name]
    if repeats then [chain] else imports.flatMap (returns chain)

/-! ## Labels -/

/-- The remark below a module that is already above itself. -/
def returnMark : String := "⚠️ Circular Reference"

/-- The label of an imported module: its path, with the number of importers if it has several. -/
def label (g : Graph) (shown : String → String) (m : String) : String :=
  let count := g.referenceCount m
  if count > 1 then shown m ++ " [ref: " ++ toString count ++ "]" else shown m

/-- The nodes below a module, each with its label. -/
def content (g : Graph) (shown : String → String) : Unfolding → List Outline
  | node _ repeats imports =>
    if repeats then [.leaf returnMark]
    else Outline.putAll (imports.map fun u => .node (label g shown u.name) (content g shown u))

/-- The outline of an unfolding; its top is labelled with its path alone. -/
def outline (g : Graph) (shown : String → String) (u : Unfolding) : Outline :=
  .node (shown u.name) (content g shown u)

/-- Keeps the first of equal texts. -/
def distinct (texts : List String) : List String :=
  texts.foldl (fun kept t => if kept.contains t then kept else kept ++ [t]) []

end Unfolding

/-! ## Rendering -/

/-- The outline of the modules below an entry and the circular chains met on the way. -/
structure Rendering where
  outline : Outline
  circular : List String

namespace Rendering

def text (r : Rendering) : String := Outline.draw [r.outline]

/-- Renders what an entry leads to, with paths relative to the source directory.  A module with
an empty name has no such path. -/
def ofEntry (cwd : Path) (g : Graph) (entry sourceDir : String) :
    Except Path.Unspecified Rendering :=
  let u := Unfolding.ofEntry g (Graph.resolveEntry cwd entry sourceDir)
  let shown := fun m => Path.relative cwd m sourceDir
  if u.names.contains "" then .error {}
  else
    .ok
      { outline := u.outline g shown
        circular := Unfolding.distinct ((u.returns []).map fun chain =>
          Cycle.arrows (chain.map shown)) }

end Rendering
end ModuleAudit
