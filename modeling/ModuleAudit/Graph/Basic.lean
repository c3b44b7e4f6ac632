import ModuleAudit.Table

/-
Module graphs: which module imports which.

A graph keeps the imports of every module it was given and, beside them, the importers of every
module that is imported.  Every change gives the graph a version number that no other graph has
had, drawn from a counter that the caller keeps.
-/

namespace ModuleAudit

structure Graph where
  files : List String
  /-- The imports of each module. -/
  forward : Table (List String)
  /-- The importers of each imported module, once for every import. -/
  reverse : Table (List String)
  version : Int
  deriving Repr

namespace Graph

def empty (files : List String) (version : Int) : Graph :=
  { files, forward := [], reverse := [], version }

def dependencies (g : Graph) (m : String) : List String := (g.forward.get? m).getD []

def importers (g : Graph) (m : String) : List String := (g.reverse.get? m).getD []

def referenceCount (g : Graph) (m : String) : Nat := (g.importers m).length

/-- Whether a module was given to the graph. -/
def contains (g : Graph) (m : String) : Bool := g.forward.has m

/-- Notes one importer of a module. -/
def addImporter (importer : String) (reverse : Table (List String)) (m : String) :
    Table (List String) :=
  reverse.put m ((reverse.get? m).getD [] ++ [importer])

/-- Gives the graph a module and its imports, and with it the version `version`. -/
def addModule (g : Graph) (version : Int) (m : String) (imports : List String) : Graph :=
  { g with
    forward := g.forward.put m imports
    reverse := imports.foldl (addImporter m) g.reverse
    version }

/-- Sets the imports of a module and nothing else. -/
def setForward (g : Graph) (m : String) (imports : List String) : Graph :=
  { g with forward := g.forward.put m imports }

/-- The number of imports in the graph. -/
def edgeCount (g : Graph) : Nat :=
  g.forward.values.foldl (fun total imports => total + imports.length) 0

end Graph
end ModuleAudit
