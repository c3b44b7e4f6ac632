import ModuleAudit.Config
import ModuleAudit.Graph.Build
import ModuleAudit.Manifest
import ModuleAudit.Outline.Unfolding
import ModuleAudit.Package
import ModuleAudit.TestFile

/-
The analysis of a project.
-/

namespace ModuleAudit

/-- What an analysis finds. -/
structure Report where
  sourceDir : String
  entryPoint : String
  files : List String
  /-- The modules that the entry point reaches. -/
  reachable : List String
  unusedModules : List String
  testFiles : List String
  cycles : List (List String)
  treeText : String
  /-- The circular chains met below the entry point. -/
  treeCircular : List String
  /-- The tree below the first test, or an empty text. -/
  testTreeText : String
  unusedPackages : List String

namespace Report

/-- The checks that found something. -/
def findings (r : Report) : Checks :=
  { circular := !r.cycles.isEmpty
    unused := !r.unusedModules.isEmpty
    packages := !r.unusedPackages.isEmpty }

def verdict (r : Report) (config : Config) : Verdict :=
  .ofFailures (config.enabled.both r.findings)

end Report

namespace Analysis

/-- Why an analysis gave no report. -/
inductive Failure where
  | capacity (fault : TextCache.CapacityFault)
  | strategy (fault : Strategy.Fault)
  | unspecified (fault : Path.Unspecified)
  | manifest (fault : Json.TooDeep)

namespace Failure

def message : Failure → String
  | capacity fault => fault.message
  | strategy fault => fault.message
  | unspecified fault => fault.message
  | manifest fault => fault.message

end Failure

/-- Scans the source directory and builds the graph of the files found. -/
def scanAndBuild (disk : Disk) (strategy : Strategy) (config : Config) :
    ExceptT Strategy.Fault (StateM Session) (List String × Graph) := do
  let (files, events) := Scan.directory disk config.filter config.sourceDir
  Session.note events
  let g ← Graph.build disk config.filter.extensions strategy files
  return (files, g)

def report (disk : Disk) (strategy : Strategy) (config : Config) :
    ExceptT Failure (StateM Session) Report := do
  let sourceDir := (disk.cwd.absolute (.ofString config.sourceDir)).toString
  let (manifest, events) ← ((Manifest.load disk sourceDir).mapError Failure.manifest : Except _ _)
  Session.note events
  let entryPoint := Manifest.entryPoint manifest config.entryPoint
  let entry := Graph.resolveEntry disk.cwd entryPoint sourceDir
  Session.note [.entryPoint entryPoint entry]
  let (files, g) ← Session.staged "Scanning" <|
    ExceptT.adapt .strategy (scanAndBuild disk strategy config)
  let reachable := g.trace disk.holds entry []
  let testFiles := TestFile.among disk.cwd files config.testDir sourceDir
  let cycles ← Session.staged "Detecting cycles" (pure (Cycle.all g))
  let render := fun (start : String) =>
    ((Rendering.ofEntry disk.cwd g start sourceDir).mapError Failure.unspecified : Except _ _)
  let tree ← render entry
  let testTreeText ← match testFiles with
    | [] => pure ""
    | first :: _ => (Rendering.text ·) <$> render first
  let unusedPackages ← Package.unused disk (Manifest.dependencies manifest) files
  return {
    sourceDir, entryPoint, files, reachable
    unusedModules := TestFile.unused disk.cwd files reachable config.testDir sourceDir
    testFiles, cycles
    treeText := tree.text
    treeCircular := tree.circular
    testTreeText, unusedPackages }

/-- Runs every check on a project, with the events and the announcements on the way. -/
def perform (disk : Disk) (strategy : Strategy) (config : Config) :
    Except Failure Report × List Event × List Announcement :=
  match TextCache.ofCapacity config.cacheSize with
  | .error fault => (.error (.capacity fault), [], [])
  | .ok cache =>
    let (result, session) := ((report disk strategy config).run).run (.ofCache cache)
    (result, session.events, session.announced)

/-- The outcome of an analysis, with the events on the way. -/
def run (disk : Disk) (strategy : Strategy) (config : Config) :
    Except Failure Report × List Event :=
  let (result, events, _) := perform disk strategy config
  (result, events)

/-- What an analysis announces. -/
def announced (disk : Disk) (strategy : Strategy) (config : Config) : List Announcement :=
  (perform disk strategy config).2.2

/-- The announcements of an analysis that comes through all of its stages. -/
def stages : List Announcement :=
  [("Scanning", 0, 1), ("Scanning", 1, 1), ("Detecting cycles", 0, 1), ("Detecting cycles", 1, 1)]

end Analysis
end ModuleAudit
