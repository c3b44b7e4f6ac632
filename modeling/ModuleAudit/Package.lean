import ModuleAudit.Pattern.Script
import ModuleAudit.Session

/-
Packages that a project declares, and whether its files mention them.

A file uses a package if it names it, or a path below it, in quotes.  The first four patterns are
the usual ways to write this down; the last one is the quoted name by itself.
-/

namespace ModuleAudit
namespace Package

open Pattern
open Pattern.Script

/-- The name of a package in quotes, alone or followed by a path below it. -/
def mention (name : String) : Pattern :=
  let subpath := Pattern.optional (all [literal ['/'], most 0 fun c => !isQuote c])
  all [quote, text name, subpath, quote]

/-- A character between the first name of an import and `from`. -/
def isListPart (c : Char) : Bool := isNamePart c || Text.isBlank c || [',', '{', '}'].contains c

/-- Imports of listed names. -/
def importListed (spec : Pattern) : Pattern :=
  all [word "import", gap, Pattern.optional (all [text "type", gap]), fewest 0 isClausePart,
    bracketed '{' '}', source, spec]

/-- Imports of a default name or of everything under a name. -/
def importNamed (spec : Pattern) : Pattern :=
  let everything := all [literal ['*'], blanks, text "as", gap, name]
  all [word "import", gap, choice name everything, fewest 0 isListPart, source, spec]

/-- The patterns that count as a use of a package. -/
def usages (packageName : String) : List Pattern :=
  let spec := mention packageName
  [importListed spec, importNamed spec, all [word "require", called spec],
    all [word "import", called spec], spec]

def isUsed (packageName : String) (contents : List String) : Bool :=
  let patterns := usages packageName
  contents.any fun content => patterns.any (·.isFound content.toList)

/-- The texts of the files that can be read.  The others are noted. -/
def readAll (disk : Disk) : List String → StateM Session (List String)
  | [] => pure []
  | path :: rest => do
    match ← Session.read disk path with
    | .ok content => return content :: (← readAll disk rest)
    | .error fault =>
      Session.note [.unreadable .packages path fault]
      readAll disk rest

/-- The declared packages that no file mentions, in the order of their declaration. -/
def unused (disk : Disk) (declared files : List String) : StateM Session (List String) := do
  if declared.isEmpty then return []
  let contents ← readAll disk files
  return declared.filter (!isUsed · contents)

end Package
end ModuleAudit
