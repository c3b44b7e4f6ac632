import ModuleAudit.Disk.Basic
import ModuleAudit.Event
import ModuleAudit.Glob

/-
The source files below a directory.

Folders are searched depth first and their entries taken in the order of their names, files and
folders together.  A folder whose name matches a skip pattern is left out with all it holds.

Only the directory itself can fail to be listed: it may be missing or a file.  The folders below it are
on the disk with all they hold, so no event speaks of them.
-/

namespace ModuleAudit
namespace Scan

/-- The extensions of source files.  Their order decides which file a specifier stands for. -/
def sourceExtensions : List String := [".js", ".jsx", ".ts", ".tsx", ".mjs", ".jest"]

/-- Folders that hold no sources of the project itself. -/
def ignoredFolders : List String := ["node_modules", "dist", "build", ".git", "coverage"]

/-- Which folders to leave out and which files to take. -/
structure Filter where
  skip : List String := ignoredFolders
  extensions : List String := sourceExtensions

namespace Filter

def skipsFolder (f : Filter) (name : String) : Bool := f.skip.any (Glob.matches · name)

def takesFile (f : Filter) (p : Path) : Bool := f.extensions.contains p.suffix

end Filter

/-- Puts groups of paths in the order of the names they are filed under. -/
def inOrder (groups : List (String × List String)) : List String :=
  (groups.mergeSort fun a b => decide (a.1 ≤ b.1)).flatMap (·.2)

mutual

/-- The source files that an entry at a path contributes to its folder. -/
def ofEntry (f : Filter) (p : Path) : Entry → List String
  | .file _ => if f.takesFile p then [p.toString] else []
  | .folder entries => if f.skipsFolder p.name then [] else inOrder (ofEntries f p entries)

/-- The source files of the entries of a folder, each group under the name of its entry. -/
def ofEntries (f : Filter) (folder : Path) : List (String × Entry) → List (String × List String)
  | [] => []
  | (name, entry) :: rest =>
    (name, ofEntry f (folder.child name) entry) :: ofEntries f folder rest

end

/-- The source files below a directory, or the event that it could not be listed.  The name of
the directory itself is not compared with the skip patterns. -/
def directory (disk : Disk) (f : Filter) (path : String) : List String × List Event :=
  let root := disk.cwd.absolute (.ofString path)
  match disk.list root.toString with
  | .error fault => ([], [.unlistable root.toString fault])
  | .ok entries => (inOrder (ofEntries f root entries), [])

end Scan
end ModuleAudit
