import ModuleAudit.CommandLine.Arguments
import ModuleAudit.CommandLine.Printed

/-
A run of the command line, from its arguments to what it prints.
-/

namespace ModuleAudit
namespace CommandLine

def versionNumber : String := "0.3.0"

/-- The name under which the command line speaks of itself. -/
def programName : String := "cli"

def usage : List String := [
  "Usage: " ++ programName ++ " [OPTIONS] [ARGS]...",
  "",
  "  treetracr: find unused modules, cycles and unused packages in a JS/TS project.",
  "",
  "  DIRECTORY    project to analyze (default: current directory)",
  "  ENTRY_POINT  main file (default: from package.json, else ./src/index.js)",
  "",
  "Options:",
  "  --version              Show the version and exit.",
  "  -t, --test-dir TEXT    Treat every file under this directory as a test",
  "  --ci                   Fail on every check unless specific --fail-on flags are",
  "                         given",
  "  --fail-on-circular     Exit non-zero when cycles are found",
  "  --fail-on-unused       Exit non-zero when unused modules are found",
  "  --fail-on-unused-deps  Exit non-zero when declared packages are unused",
  "  -v, --verbose          Enable debug logging",
  "  -h, --help             Show this message and exit.",
  "",
  "  Exit codes:",
  "    0  all enabled checks passed",
  "    1  circular dependencies found",
  "    2  unused modules found",
  "    3  circular dependencies and unused modules found",
  "    4  unused package dependencies found",
  "    7  unused package dependencies plus circular and/or unused modules",
  "    70 internal error"]

def Request.answer : Request → List String
  | .help => usage
  | .version => [programName ++ ", version " ++ versionNumber]

/-- What a run leaves behind.  Lines of the two channels end in a newline each. -/
structure Outcome where
  exitCode : Nat
  output : String
  errors : String
  deriving DecidableEq, Repr

/-- Lines as they are printed, with or without colours. -/
def echo (color : Bool) (lines : List String) : String :=
  String.join (lines.map fun line => (if color then line else plain line) ++ "\n")

/-- Events as they are logged. -/
def logged (verbose : Bool) (events : List Event) : String :=
  String.join ((events.filter (Event.isShown verbose)).map fun e => e.line ++ "\n")

/-- The exit code for arguments that make no sense. -/
def usageExitCode : Nat := 2

/-- The verdict of an analysis and the lines of its report, or the message of its failure; and the
events on the way. -/
def analysisOutput (disk : Disk) (strategy : Strategy) (a : Arguments) :
    Except String (Verdict × List String) × List Event :=
  let config := a.config
  let (result, events) := Analysis.run disk strategy config
  let printed := do
    let report ← result.mapError Analysis.Failure.message
    let body ← (sections disk.cwd report config).mapError Path.Unspecified.message
    return (report.verdict config,
      [Style.paint [.blue] ("Using entry point: " ++ report.entryPoint),
        "Found " ++ toString report.files.length ++ " JavaScript/TypeScript files"] ++ body)
  (printed, events)

/-- The line of a fatal error. -/
def fatalLine (message : String) : String := Style.paint [.red] "Error: " ++ message

/-- Runs an analysis and prints its report. -/
def analyse (disk : Disk) (strategy : Strategy) (color : Bool) (a : Arguments) : Outcome :=
  let warned := echo color (a.warnings.map (Style.paint [.yellow]))
  if !disk.isFolder (Path.ofString a.directory).toString then
    { exitCode := Verdict.fatal.code
      output := ""
      errors := warned ++ echo color [fatalLine (a.directory ++ " is not a directory")] }
  else
    let start := echo color [Style.paint [.blue] ("Scanning source directory: " ++ a.directory)]
    let (result, events) := analysisOutput disk strategy a
    let log := warned ++ logged a.verbose events
    match result with
    | .error message =>
      { exitCode := Verdict.fatal.code, output := start, errors := log ++ echo color [fatalLine message] }
    | .ok (verdict, lines) =>
      { exitCode := verdict.code, output := start ++ echo color lines, errors := log }

/-- Runs the command line. -/
def run (disk : Disk) (strategy : Strategy) (color : Bool) (args : List String) : Outcome :=
  match Arguments.parse args with
  | .error fault =>
    { exitCode := usageExitCode, output := "", errors := echo color ["Error: " ++ fault.message] }
  | .ok a =>
    match a.request with
    | some request => { exitCode := 0, output := echo color request.answer, errors := "" }
    | none => analyse disk strategy color a

end CommandLine
end ModuleAudit
