import ModuleAudit.Disk.Basic
import ModuleAudit.Event
import ModuleAudit.Json.Parser

/-
The manifest of a project: its entry point and the packages it declares.
-/

namespace ModuleAudit

/-- The members of the manifest's object. -/
structure Manifest where
  members : Table Json

namespace Manifest

/-- Where the manifest of a directory is. -/
def location (directory : String) : String := ((Path.ofString directory).child "package.json").toString

/-- The manifest in a directory, or none with the reason.  Only a value that is nested too deep is
a fault. -/
def load (disk : Disk) (directory : String) :
    Except Json.TooDeep (Option Manifest × List Event) :=
  let path := location directory
  match disk.readText path with
  | .error fault => .ok (none, [.manifestUnusable path fault.message])
  | .ok text =>
    match Json.parse text.toList with
    | .error (.tooDeep fault) => .error fault
    | .error fault => .ok (none, [.manifestUnusable path (fault.message text.toList)])
    | .ok (.object members) => .ok (some ⟨members⟩, [])
    | .ok _ => .ok (none, [.manifestNotObject path])

/-! ## The entry point -/

def defaultEntry : String := "./src/index.js"

/-- The fields that can name the entry point, in the order in which they are asked. -/
def entryFields : List String := ["main", "module", "browser", "exports"]

/-- The conditions under which the root of `exports` can name the entry point. -/
def exportConditions : List String := ["default", "import"]

/-- The entry point that a map of exports names: a file, or the root of the map, directly or under
a condition. -/
def fromExports : Json → Option String
  | .object members =>
    (members.lookup ".").bind fun root =>
      root.text? <|>
      exportConditions.findSome? fun condition => (root.member? condition).bind Json.text?
  | exports => exports.text?

/-- The entry point that a field names. -/
def fieldEntry (m : Manifest) (field : String) : Option String :=
  (m.members.get? field).bind fun value =>
    if field == "exports" then fromExports value else value.text?

/-- The entry point: the one asked for, else the first that the manifest names, else the usual
one. -/
def entryPoint (m : Option Manifest) (asked : Option String) : String :=
  match asked.filter (· != "") with
  | some entry => entry
  | none => (m.bind fun m => entryFields.findSome? m.fieldEntry).getD defaultEntry

/-! ## Packages -/

/-- The names of the packages that a project depends on. -/
def dependencies (m : Option Manifest) : List String :=
  match m.bind (·.members.get? "dependencies") with
  | some (.object members) => Table.keys members
  | _ => []

end Manifest
end ModuleAudit
