import ModuleAudit.Session
import ModuleAudit.Specifier.Basic

/-
From relative specifiers to files.

A relative specifier is followed from the directory of the importing file.  If the result has an
extension, it is the file; otherwise an index file inside it is tried for each extension in
order, and then the path with each extension added.  A module that is not found keeps the path it
would have had.
-/

namespace ModuleAudit
namespace Specifier

/-- What a specifier stands for. -/
inductive Resolution where
  /-- A package, under its name. -/
  | package (name : String)
  | found (path : String)
  /-- No such file; the path that was asked for. -/
  | missing (path : String)
  deriving DecidableEq, Repr

namespace Resolution

/-- The identity of the module. -/
def identity : Resolution → String
  | package name => name
  | found path => path
  | missing path => path

end Resolution

/-- The absolute path that a relative specifier asks for. -/
def requested (cwd : Path) (base specifier : String) : Path :=
  ((cwd.absolute (.ofString base)).parent.join (.ofString specifier)).collapse

/-- The text of an entry of a directory. -/
def below (directory name : String) : String :=
  if directory.toList.getLast? == some '/' then directory ++ name else directory ++ "/" ++ name

/-- The files tried for a path without an extension, in order. -/
def candidates (extensions : List String) (path : String) : List String :=
  extensions.map (fun ext => below path ("index" ++ ext)) ++ extensions.map (path ++ ·)

/-- What a specifier stands for in the file `base`. -/
def locate (disk : Disk) (extensions : List String) (base specifier : String) : Resolution :=
  if !isRelative specifier then .package specifier
  else
    let path := (requested disk.cwd base specifier).toString
    let tried := if Path.extension path != "" then [path] else candidates extensions path
    match tried.find? disk.isFile with
    | some file => .found file
    | none => .missing path

/-- The module that a specifier stands for.  A file that was found goes into the cache if
`prefetch` is set, and one that was not is noted. -/
def resolve (disk : Disk) (extensions : List String) (prefetch : Bool) (base specifier : String) :
    StateM Session String := do
  let resolution := locate disk extensions base specifier
  match resolution with
  | .package _ => pure ()
  | .found path => if prefetch then Session.prefetch disk path
  | .missing _ => Session.note [.unresolved specifier base]
  return resolution.identity

end Specifier
end ModuleAudit
