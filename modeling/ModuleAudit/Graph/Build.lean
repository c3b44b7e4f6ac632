import ModuleAudit.Graph.Basic
import ModuleAudit.Imports

/-
The module graph of some files.
-/

namespace ModuleAudit
namespace Graph

/-- Adds files to a graph, each with its imports and the next version number. -/
def addFiles (disk : Disk) (extensions : List String) (strategy : Strategy) (g : Graph) :
    List String → ExceptT Strategy.Fault (StateM Session) Graph
  | [] => pure g
  | file :: rest => do
    let imports ← Imports.ofFile disk extensions strategy file
    addFiles disk extensions strategy (g.addModule (g.version + 1) file imports) rest

/-- The module graph of some files.  Version numbers are counted from one. -/
def build (disk : Disk) (extensions : List String) (strategy : Strategy) (files : List String) :
    ExceptT Strategy.Fault (StateM Session) Graph := do
  let g ← addFiles disk extensions strategy (.empty files 1) files
  Session.note [.graphBuilt g.version.toNat g.forward.length g.edgeCount]
  return g

end Graph
end ModuleAudit
