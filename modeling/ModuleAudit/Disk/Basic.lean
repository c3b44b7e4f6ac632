import ModuleAudit.Disk.Fault
import ModuleAudit.Path.Basic
import ModuleAudit.Table

/-
A disk: a tree of folders and files, and a working directory.

Looking up a path walks the tree piece by piece, so a double dot leads to the folder that holds
the current one and every piece but the last has to be a folder.  This differs from collapsing
the path first only where a piece does not exist or is a file.

A disk has files and folders and nothing else.  Every folder on it can be listed and every file can be
opened: links and permissions are left out.  A name may have any character.  A path with a zero
character in it leads nowhere unless there is such a name, and it is no fault of another kind.
-/

namespace ModuleAudit

inductive Entry where
  | file (bytes : List UInt8)
  | folder (entries : List (String × Entry))

structure Disk where
  root : Entry
  cwd : Path

namespace Disk

/-- Why a path leads nowhere. -/
inductive Dead where
  | missing
  | notFolder
  deriving DecidableEq, Repr

/-- Follows the pieces of a path from the entry `here`, which lies in the folders `above`. -/
def walk (here : Entry) (above : List Entry) : List String → Except Dead Entry
  | [] => .ok here
  | piece :: rest =>
    match here with
    | .file _ => .error .notFolder
    | .folder entries =>
      if !Path.isStep piece then walk here above rest
      else if piece == ".." then
        match above with
        | [] => walk here [] rest
        | up :: higher => walk up higher rest
      else
        match entries.lookup piece with
        | none => .error .missing
        | some entry => walk entry (here :: above) rest

/-- The entry at a path.  Relative paths start in the working directory. -/
def lookup (disk : Disk) (path : String) : Except Dead Entry :=
  if path == "" then .error .missing
  else
    let start := if (Path.ofString path).isRooted then [] else disk.cwd.names
    walk disk.root [] (start ++ Path.pieces path)

def holds (disk : Disk) (path : String) : Bool := (disk.lookup path).isOk

def isFile (disk : Disk) (path : String) : Bool :=
  match disk.lookup path with
  | .ok (.file _) => true
  | _ => false

def isFolder (disk : Disk) (path : String) : Bool :=
  match disk.lookup path with
  | .ok (.folder _) => true
  | _ => false

def Dead.toFault (path : String) : Dead → Fault
  | missing => .missing path
  | notFolder => .notFolder path

/-- The text of a file.  Faults show the path without its empty and dotted pieces. -/
def readText (disk : Disk) (path : String) : Except Fault String :=
  let shown := (Path.ofString path).toString
  match disk.lookup shown with
  | .error dead => .error (dead.toFault shown)
  | .ok (.folder _) => .error (.isFolder shown)
  | .ok (.file bytes) =>
    match Text.Utf8.decode bytes with
    | .error fault => .error (.undecodable fault)
    | .ok cs => .ok (String.ofList (Text.unifyLines cs))

/-- The entries of a folder. -/
def list (disk : Disk) (path : String) : Except Fault (List (String × Entry)) :=
  match disk.lookup path with
  | .error dead => .error (dead.toFault path)
  | .ok (.file _) => .error (.notFolder path)
  | .ok (.folder entries) => .ok entries

/-! ## Changing a disk -/

/-- Replaces what is at the end of a chain of names, making folders on the way. -/
def update (change : Option Entry → Entry) : List String → Option Entry → Entry
  | [], old => change old
  | name :: rest, old =>
    let entries := match old with
      | some (.folder entries) => entries
      | _ => []
    .folder (Table.put entries name (update change rest (entries.lookup name)))

/-- A disk with a file written at a path. -/
def write (disk : Disk) (path : String) (bytes : List UInt8) : Disk :=
  let names := (disk.cwd.absolute (Path.ofString path)).names
  { disk with root := update (fun _ => .file bytes) names (some disk.root) }

/-- A disk with a folder at a path; one that is there keeps its entries. -/
def makeFolder (disk : Disk) (path : String) : Disk :=
  let names := (disk.cwd.absolute (Path.ofString path)).names
  { disk with root := update (fun old => old.getD (.folder [])) names (some disk.root) }

end Disk
end ModuleAudit
