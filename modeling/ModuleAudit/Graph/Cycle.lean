import ModuleAudit.Graph.Basic
import ModuleAudit.Path.Basic

/-
Circular imports.

The search goes depth first through the whole graph.  It keeps the path of modules that are being
expanded; an import of a module on that path closes a cycle, which is reported from that module
to itself.  The search is a machine that takes one small step after another, so that facts about
its states can be stated.
-/

namespace ModuleAudit
namespace Cycle

inductive Mark where
  | unseen
  /-- On the path. -/
  | open
  /-- Fully expanded. -/
  | closed
  deriving DecidableEq, Repr

/-- A state of the search. -/
structure Search where
  /-- Modules that the search has yet to start from. -/
  starts : List String
  marks : Table Mark
  /-- The modules being expanded, the one that was started from first. -/
  path : List String
  /-- The same modules, innermost first, each with the imports that are still to be looked at. -/
  stack : List (String × List String)
  /-- The cycles found, under their texts. -/
  cycles : Table (List String)

namespace Search

def initial (g : Graph) : Search :=
  { starts := g.forward.keys, marks := [], path := [], stack := [], cycles := [] }

def mark (s : Search) (m : String) : Mark := (s.marks.get? m).getD .unseen

/-- Starts to expand a module. -/
def enter (g : Graph) (s : Search) (m : String) : Search :=
  { s with
    marks := s.marks.put m .open
    path := s.path ++ [m]
    stack := (m, g.dependencies m) :: s.stack }

/-- The cycle that an import of `m`, a module on the path, closes. -/
def closing (s : Search) (m : String) : List String := s.path.dropWhile (· != m) ++ [m]

/-- Keeps a cycle unless one with the same text was found. -/
def report (s : Search) (cycle : List String) : Search :=
  let key := " -> ".intercalate cycle
  if s.cycles.has key then s else { s with cycles := s.cycles ++ [(key, cycle)] }

/-- One step: start from the next module, look at the next import of the innermost module, or
leave that module when it has no more.  There is none when all is done. -/
def step? (g : Graph) (s : Search) : Option Search :=
  match s.stack with
  | [] =>
    match s.starts with
    | [] => none
    | m :: starts =>
      let s := { s with starts }
      some (if s.mark m == .unseen then s.enter g m else s)
  | (m, []) :: stack =>
    some { s with stack, path := s.path.dropLast, marks := s.marks.put m .closed }
  | (m, next :: rest) :: stack =>
    let s := { s with stack := (m, rest) :: stack }
    match s.mark next with
    | .unseen => some (s.enter g next)
    | .open => some (s.report (s.closing next))
    | .closed => some s

/-- At most `room` steps. -/
def run (g : Graph) : (room : Nat) → Search → Search
  | 0, s => s
  | room + 1, s =>
    match s.step? g with
    | none => s
    | some s => run g room s

/-- Steps enough to finish: one for every start, one for every import, and one to leave each of
the modules entered that way. -/
def room (g : Graph) : Nat := 2 * (g.forward.length + g.edgeCount) + 1

end Search

/-- The cycles of a graph, in the order in which they are found. -/
def all (g : Graph) : List (List String) :=
  ((Search.initial g).run g (Search.room g)).cycles.values

/-! ## Keeping the answer -/

/-- The last answer, and the version of the graph it was given for. -/
structure Detector where
  last : Option (Int × List (List String))

namespace Detector

def fresh : Detector := ⟨none⟩

/-- The cycles of a graph.  The last answer is given again for a graph of the same version. -/
def detect (d : Detector) (g : Graph) : List (List String) × Detector :=
  match d.last with
  | some (version, cycles) =>
    if version == g.version then (cycles, d)
    else
      let cycles := all g
      (cycles, ⟨some (g.version, cycles)⟩)
  | none =>
    let cycles := all g
    (cycles, ⟨some (g.version, cycles)⟩)

end Detector

/-! ## Showing a cycle -/

/-- A path between arrows. -/
def arrows (names : List String) : String := " -> ".intercalate names

/-- A cycle with its modules relative to the source directory. -/
def format (cwd : Path) (sourceDir : String) (cycle : List String) : Except Path.Unspecified String :=
  arrows <$> cycle.mapM fun m => Path.relative? cwd m sourceDir

end Cycle
end ModuleAudit
