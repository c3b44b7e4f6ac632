import ModuleAudit.Analysis
import ModuleAudit.CommandLine.Style

/-
A report as the command line prints it, section by section.
-/

namespace ModuleAudit
namespace CommandLine

def rule : String := "============================================="

/-- The heading of a section. -/
def heading (title : String) (style : Style) : List String :=
  [Style.paint [style] ("\n" ++ rule), Style.paint [style] title, Style.paint [style] rule]

/-- Items with a dash. -/
def bullets (styles : List Style) (items : List String) : List String :=
  items.map fun item => Style.paint styles ("- " ++ item)

/-- A path as it is seen from the source directory. -/
def shown (cwd : Path) (r : Report) (path : String) : Except Path.Unspecified String :=
  Path.relative? cwd path r.sourceDir

def unusedModulesSection (cwd : Path) (r : Report) : Except Path.Unspecified (List String) := do
  let names ← r.unusedModules.mapM (shown cwd r)
  let body :=
    if names.isEmpty then [Style.paint [.green] "No unused local modules found!"]
    else
      Style.paint [.yellow] ("Found " ++ toString names.length ++ " unused local modules:") ::
        bullets [.yellow] names
  return heading "UNUSED LOCAL MODULES" .yellow ++ body

def treeSection (r : Report) : List String :=
  heading "DEPENDENCY TREE FROM ENTRY POINT" .green ++ [r.treeText]

/-- Numbered items, counted on from a number. -/
def numbered (n : Nat) : List String → List String
  | [] => []
  | item :: rest => (toString n ++ ". " ++ item) :: numbered (n + 1) rest

def cyclesSection (cwd : Path) (r : Report) : Except Path.Unspecified (List String) := do
  let cycles ← r.cycles.mapM (Cycle.format cwd r.sourceDir)
  let body :=
    if cycles.isEmpty then [Style.paint [.green] "No circular dependencies found!"]
    else
      Style.paint [.red] ("Found " ++ toString cycles.length ++ " circular dependencies:") ::
        (numbered 1 cycles).map (Style.paint [.red])
  let chains :=
    if r.treeCircular.isEmpty then []
    else
      Style.paint [.yellow] "\nCircular references in dependency tree:" ::
        bullets [.yellow] r.treeCircular
  return heading "CIRCULAR DEPENDENCIES" (if cycles.isEmpty then .cyan else .red) ++ body ++ chains

def packagesSection (r : Report) : List String :=
  let names := r.unusedPackages.mergeSort
  let body :=
    if names.isEmpty then [Style.paint [.green] "No unused package dependencies found!"]
    else
      Style.paint [.yellow] ("Found " ++ toString names.length ++ " unused package dependencies:") ::
        bullets [.yellow] names
  heading "UNUSED PACKAGE DEPENDENCIES" .yellow ++ body

def testsSection (cwd : Path) (r : Report) : Except Path.Unspecified (List String) := do
  let names ← r.testFiles.mapM (shown cwd r)
  let body :=
    match names with
    | [] => ["No test files found."]
    | first :: _ =>
      ("Found " ++ toString names.length ++ " test files:") :: names.map ("- " ++ ·) ++
        [Style.paint [.dim] ("\nDependencies of " ++ first ++ ":"), r.testTreeText]
  return heading "TEST FILES" .cyan ++ body

/-! ## The summary of the checks -/

/-- The width of the first column of the summary. -/
def labelWidth : Nat := 30

def padded (width : Nat) (text : String) : String := text.pushn ' ' (width - text.length)

/-- The line of a check: skipped, passed or failed with a number of findings. -/
def checkLine (label : String) (enabled : Bool) (count : Nat) : String :=
  let status :=
    if !enabled then Style.paint [.dim] "skipped"
    else if count == 0 then Style.paint [.green] "pass"
    else Style.paint [.red, .bold] ("FAIL (" ++ toString count ++ ")")
  "  " ++ padded labelWidth label ++ " " ++ status

def summarySection (r : Report) (config : Config) : List String :=
  let enabled := config.enabled
  let verdict := r.verdict config
  heading "CI SUMMARY" .magenta ++
    [checkLine "Circular dependencies" enabled.circular r.cycles.length,
      checkLine "Unused modules" enabled.unused r.unusedModules.length,
      checkLine "Unused package dependencies" enabled.packages r.unusedPackages.length,
      Style.paint [if verdict = .ok then .green else .red]
        ("\nExit code: " ++ toString verdict.code)]

/-- A report as it is printed.  The summary is there if any check counts. -/
def sections (cwd : Path) (r : Report) (config : Config) : Except Path.Unspecified (List String) := do
  return (← unusedModulesSection cwd r) ++ treeSection r ++ (← cyclesSection cwd r) ++
    packagesSection r ++ (← testsSection cwd r) ++
    (if config.enabled.any then summarySection r config else [])

end CommandLine
end ModuleAudit
