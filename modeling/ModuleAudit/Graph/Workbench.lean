import ModuleAudit.Graph.Cycle

/-
Several graphs that grow side by side, with one detector for their cycles.

Version numbers come from one counter, so a number that the counter gave out stands for one state
of one graph.
-/

namespace ModuleAudit

structure Workbench where
  graphs : List Graph := []
  /-- The next version number. -/
  next : Int := 1
  detector : Cycle.Detector := .fresh

namespace Workbench

/-- Puts a graph on the bench as it is. -/
def place (w : Workbench) (g : Graph) : Workbench := { w with graphs := w.graphs ++ [g] }

/-- Puts an empty graph on the bench. -/
def create (w : Workbench) : Workbench :=
  { w.place (.empty [] w.next) with next := w.next + 1 }

/-- Changes a graph in place and keeps its version. -/
def change (w : Workbench) (i : Nat) (f : Graph → Graph) : Workbench :=
  { w with graphs := w.graphs.modify i f }

/-- Adds a module to a graph. -/
def add (w : Workbench) (i : Nat) (m : String) (imports : List String) : Workbench :=
  { w.change i (·.addModule w.next m imports) with next := w.next + 1 }

/-- The cycles of a graph, by the shared detector. -/
def detect (w : Workbench) (i : Nat) : List (List String) × Workbench :=
  match w.graphs[i]? with
  | none => ([], w)
  | some g =>
    let (cycles, detector) := w.detector.detect g
    (cycles, { w with detector })

/-! ## Views

A view of a graph keeps the imports of the moment it was taken.  Its lists of importers only ever
grow, and it shows them as they are on the bench when it is looked at. -/

structure View where
  /-- The place of the graph on the bench. -/
  place : Nat
  files : List String
  forward : Table (List String)
  /-- The modules that had importers. -/
  imported : List String
  version : Int

def view (w : Workbench) (i : Nat) : Option View :=
  w.graphs[i]?.map fun g =>
    { place := i
      files := g.files
      forward := g.forward
      imported := g.reverse.keys
      version := g.version }

/-- The importers that a view shows. -/
def View.reverse (v : View) (w : Workbench) : Table (List String) :=
  match w.graphs[v.place]? with
  | none => []
  | some g => v.imported.map fun m => (m, g.importers m)

end Workbench
end ModuleAudit
