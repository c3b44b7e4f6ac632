/-
Paths of files and directories, as text and as lists of names.

A `Path` is a path with the slashes taken out: the kind of its root and the names along the way.
Empty names and single dots say nothing and are left out, so `a//b/./c` and `a/b/c` are the same
path.  A double dot is a name like any other until `collapse` applies it to the name before it.
That is done on the text alone, without asking what is on disk.
-/

namespace ModuleAudit

namespace Path

/-- How a path starts.  Exactly two slashes are told apart from one; three or more count as
one. -/
inductive Root where
  | relative
  | slash
  | doubleSlash
  deriving DecidableEq, Repr

namespace Root

def ofSlashes : Nat → Root
  | 0 => relative
  | 2 => doubleSlash
  | _ => slash

def text : Root → String
  | relative => ""
  | slash => "/"
  | doubleSlash => "//"

def isRooted (r : Root) : Bool := r != relative

end Root
end Path

structure Path where
  root : Path.Root
  names : List String
  deriving DecidableEq, Repr

namespace Path

/-- The pieces of a text between its slashes, empty ones included. -/
def split : List Char → List (List Char)
  | [] => [[]]
  | c :: cs =>
    if c == '/' then [] :: split cs
    else
      match split cs with
      | [] => [[c]]
      | piece :: pieces => (c :: piece) :: pieces

/-- The names between the slashes of a text, as written. -/
def pieces (s : String) : List String := (split s.toList).map String.ofList

/-- A piece that leads somewhere. -/
def isStep (name : String) : Bool := name != "" && name != "."

def ofString (s : String) : Path where
  root := .ofSlashes (s.toList.takeWhile (· == '/')).length
  names := (pieces s).filter isStep

/-- The text of a path.  The empty relative path is a dot. -/
def toString (p : Path) : String :=
  if p.names.isEmpty && !p.root.isRooted then "." else p.root.text ++ "/".intercalate p.names

instance : ToString Path := ⟨Path.toString⟩

def isRooted (p : Path) : Bool := p.root.isRooted

/-- The last name of a path, empty if it has none. -/
def name (p : Path) : String := p.names.getLast?.getD ""

/-- The path of an entry below `p`. -/
def child (p : Path) (name : String) : Path := { p with names := p.names ++ [name] }

def parent (p : Path) : Path := { p with names := p.names.dropLast }

/-- `q` seen from the directory `p`. -/
def join (p q : Path) : Path :=
  if q.isRooted then q else { p with names := p.names ++ q.names }

/-! ## Collapsing double dots -/

/-- Adds a name to the names kept so far, last one first.  A double dot takes away the name
before it; there is nothing above a root, and a relative path keeps the dots it cannot apply. -/
def collapseStep (rooted : Bool) (kept : List String) (name : String) : List String :=
  if name != ".." then name :: kept
  else
    match kept with
    | [] => if rooted then [] else [".."]
    | last :: rest => if last == ".." then ".." :: kept else rest

def collapse (p : Path) : Path :=
  { p with names := (p.names.foldl (collapseStep p.isRooted) []).reverse }

/-- The absolute form of a path seen from the working directory `cwd`. -/
def absolute (cwd p : Path) : Path := (cwd.join p).collapse

/-- The text of a path with all its double dots applied. -/
def normalize (s : String) : String := (ofString s).collapse.toString

/-! ## Relative paths -/

/-- What is left of two lists of names behind their common beginning. -/
def diverge : List String → List String → List String × List String
  | a :: as, b :: bs => if a == b then diverge as bs else (a :: as, b :: bs)
  | as, bs => (as, bs)

/-- The way from the directory `start` to `p`, both absolute: up to their common directory, then
down. -/
def relativeTo (p start : Path) : Path :=
  let (up, down) := diverge start.names p.names
  { root := .relative, names := up.map (fun _ => "..") ++ down }

/-- The text of the path from `start` to `p`, both seen from `cwd`. -/
def relative (cwd : Path) (p start : String) : String :=
  ((cwd.absolute (ofString p)).relativeTo (cwd.absolute (ofString start))).toString

/-- No path was given where one is needed. -/
structure Unspecified where
  deriving DecidableEq, Repr

def Unspecified.message (_ : Unspecified) : String := "no path specified"

/-- The same, for a path that may be empty: the empty text names no file. -/
def relative? (cwd : Path) (p start : String) : Except Unspecified String :=
  if p == "" then .error {} else .ok (relative cwd p start)

/-! ## Extensions -/

/-- The part of a name from its last dot on, and what stands before that dot. -/
def lastDot (name : List Char) : Option (List Char × List Char) :=
  match name.reverse.span (· != '.') with
  | (after, _ :: before) => some (before.reverse, '.' :: after.reverse)
  | (_, []) => none

/-- The extension of a file name: from its last dot on, unless only dots stand before it. -/
def nameExtension (name : List Char) : List Char :=
  match lastDot name with
  | some (before, ext) => if before.any (· != '.') then ext else []
  | none => []

/-- The extension of the last piece of a path. -/
def extension (s : String) : String :=
  String.ofList (nameExtension ((split s.toList).getLastD []))

/-- The suffix of a file name: from its last dot on, unless that is its first or its last
character. -/
def nameSuffix (name : List Char) : List Char :=
  match lastDot name with
  | some (before, ext) => if before.isEmpty || ext.length == 1 then [] else ext
  | none => []

def suffix (p : Path) : String := String.ofList (nameSuffix p.name.toList)

end Path
end ModuleAudit
