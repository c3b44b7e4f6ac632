import ModuleAudit.Graph.Basic
import ModuleAudit.Path.Basic

/-
The modules that an entry point reaches.
-/

namespace ModuleAudit
namespace Graph

/-- The absolute path of an entry point that is given relative to the source directory. -/
def resolveEntry (cwd : Path) (entry sourceDir : String) : String :=
  ((cwd.absolute (.ofString sourceDir)).join (.ofString entry)).collapse.toString

/-- Takes modules off `pending`, first one first, for at most `room` rounds.  A module that is on
disk and was not visited is visited, and its imports go in front of what is pending. -/
def traceFrom (g : Graph) (onDisk : String → Bool) :
    (room : Nat) → (pending visited : List String) → List String
  | 0, _, visited => visited
  | _ + 1, [], visited => visited
  | room + 1, next :: pending, visited =>
    let m := Path.normalize next
    if visited.contains m || !onDisk m then traceFrom g onDisk room pending visited
    else traceFrom g onDisk room (g.dependencies m ++ pending) (visited ++ [m])

/-- The modules reached from `entry`, itself included, in the order in which they are visited,
after those visited before.  Every import is pending at most once, so there is room for all. -/
def trace (g : Graph) (onDisk : String → Bool) (entry : String) (visited : List String) :
    List String :=
  traceFrom g onDisk (g.edgeCount + 2) [entry] visited

end Graph
end ModuleAudit
