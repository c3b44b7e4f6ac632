import ModuleAudit.Specifier.Resolve
import ModuleAudit.Strategy
import ModuleAudit.Text.Blank

/-
The local modules that a file imports.
-/

namespace ModuleAudit
namespace Imports

/-- Adds a module to a list unless it is there. -/
def addNew (modules : List String) (m : String) : List String :=
  if modules.contains m then modules else modules ++ [m]

/-- The modules of the relative specifiers, each once, in the order of their first mention. -/
def resolveAll (disk : Disk) (extensions : List String) (path : String) (known : List String) :
    List String → StateM Session (List String)
  | [] => pure known
  | specifier :: rest => do
    if Specifier.isRelative specifier then
      let m ← Specifier.resolve disk extensions true path specifier
      resolveAll disk extensions path (addNew known m) rest
    else resolveAll disk extensions path known rest

/-- The local modules that a file imports.  A file that cannot be read, or that is blank, imports
nothing. -/
def ofFile (disk : Disk) (extensions : List String) (strategy : Strategy) (path : String) :
    ExceptT Strategy.Fault (StateM Session) (List String) := do
  if !disk.isFile path then return []
  match ← (Session.read disk path : StateM Session _) with
  | .error fault =>
    Session.note [.unreadable .imports path fault]
    return []
  | .ok content =>
    if content.toList.all Text.isBlank then return []
    let (result, events) := strategy.extract content path
    Session.note events
    let specifiers ← ExceptT.mk (pure result)
    resolveAll disk extensions path [] specifiers

end Imports
end ModuleAudit
