import ModuleAudit.Path.Basic
import ModuleAudit.Pattern.Basic

/-
Test files.

A file is a test if it lies below the test directory, or if its path looks like that of a test.
-/

namespace ModuleAudit
namespace TestFile

open Pattern

/-- `.test.` or `.spec.` before an extension for scripts, at the end of the path. -/
def marked (mark : String) : Pattern :=
  all [text mark, one fun c => c == 'j' || c == 't', literal ['s'],
    Pattern.optional (literal ['x']), finish]

/-- How the paths of tests look. -/
def patterns : List Pattern :=
  [marked ".test.", marked ".spec.", text "__tests__/", text "/test/"]

def looksLikeTest (path : String) : Bool := patterns.any (·.isFound path.toList)

/-- A directory that may be left out: none, or an empty text. -/
def given? (directory : Option String) : Option String := directory.filter (· != "")

/-- The absolute path of the test directory, which is relative to the source directory, or to the
working directory if there is none. -/
def testRoot (cwd : Path) (testDir : String) (sourceDir : Option String) : Path :=
  let base := match given? sourceDir with
    | some dir => cwd.absolute (.ofString dir)
    | none => cwd.collapse
  (base.join (.ofString testDir)).collapse

/-- The text of `path` is that of `root`, or goes on from it with a slash. -/
def isBelow (path root : String) : Bool :=
  path == root || (root ++ "/").toList.isPrefixOf path.toList

/-- The path that is compared with the patterns: the one below the source directory, if there is
one. -/
def comparedPath (cwd : Path) (path : Path) (sourceDir : Option String) : String :=
  match given? sourceDir with
  | some dir => "/" ++ (path.relativeTo (cwd.absolute (.ofString dir))).toString
  | none => path.toString

/-- Whether a file is a test. -/
def isTest (cwd : Path) (file : String) (testDir sourceDir : Option String) : Bool :=
  let path := cwd.absolute (.ofString file)
  let inTestDir := match given? testDir with
    | some dir => isBelow path.toString (testRoot cwd dir sourceDir).toString
    | none => false
  inTestDir || looksLikeTest (comparedPath cwd path sourceDir)

/-- The tests among some files. -/
def among (cwd : Path) (files : List String) (testDir sourceDir : Option String) : List String :=
  files.filter fun file => isTest cwd file testDir sourceDir

/-- The files that are neither reached nor tests. -/
def unused (cwd : Path) (files reachable : List String) (testDir sourceDir : Option String) :
    List String :=
  files.filter fun file =>
    !reachable.contains (Path.normalize file) && !isTest cwd file testDir sourceDir

end TestFile
end ModuleAudit
