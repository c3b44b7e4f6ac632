import ModuleAudit.Disk.Fault

/-
What happens on the way: events that are worth a line in the log.

Each kind of event has a level, the channel it is logged on and the wording of its message.
-/

namespace ModuleAudit

namespace Event

inductive Level where
  | debug
  | warning
  | error
  deriving DecidableEq, Repr

def Level.name : Level → String
  | debug => "DEBUG"
  | warning => "WARNING"
  | error => "ERROR"

/-- Who wanted to read a file. -/
inductive Reader where
  | imports
  | packages
  deriving DecidableEq, Repr

end Event

inductive Event where
  /-- No file was found for a relative specifier. -/
  | unresolved (specifier base : String)
  | unreadable (reader : Event.Reader) (path : String) (fault : Disk.Fault)
  | unlistable (path : String) (fault : Disk.Fault)
  | prefetchSkipped (path : String) (fault : Disk.Fault)
  /-- The first strategy failed with a message, and the second one took over. -/
  | fellBack (primary message fallback : String)
  | manifestUnusable (path message : String)
  | manifestNotObject (path : String)
  | entryPoint (entry path : String)
  | graphBuilt (version modules edges : Nat)
  deriving DecidableEq, Repr

namespace Event

def level : Event → Level
  | unresolved .. => .warning
  | unreadable .. => .error
  | unlistable .. => .error
  | _ => .debug

/-- The channel that an event is logged on. -/
def channel : Event → String
  | unresolved .. => "treetracr.resolver"
  | unreadable .imports .. => "treetracr.extractor"
  | unreadable .packages .. => "treetracr.analysis.package_usage"
  | unlistable .. => "treetracr.scanner"
  | prefetchSkipped .. => "treetracr.scanner.file_cache"
  | fellBack .. => "treetracr.extractor"
  | manifestUnusable .. => "treetracr.manifest"
  | manifestNotObject .. => "treetracr.manifest"
  | entryPoint .. => "treetracr.pipeline"
  | graphBuilt .. => "treetracr.analysis.dependency_graph"

def message : Event → String
  | unresolved specifier base =>
    "Could not resolve " ++ Text.quoted specifier ++ " imported from " ++ base
  | unreadable _ path fault => "Error reading file " ++ path ++ ": " ++ fault.message
  | unlistable path fault => "Error scanning directory " ++ path ++ ": " ++ fault.message
  | prefetchSkipped path fault => "prefetch skipped for " ++ path ++ ": " ++ fault.message
  | fellBack primary message fallback =>
    primary ++ " failed (" ++ message ++ "), falling back to " ++ fallback
  | manifestUnusable path message => "No usable package.json at " ++ path ++ ": " ++ message
  | manifestNotObject path => "package.json at " ++ path ++ " is not an object"
  | entryPoint entry path => "entry point " ++ entry ++ " -> " ++ path
  | graphBuilt version modules edges =>
    "built graph v" ++ toString version ++ ": " ++ toString modules ++ " modules, " ++
      toString edges ++ " edges"

/-- The line of an event in a plain log. -/
def line (e : Event) : String := e.level.name ++ " " ++ e.channel ++ ": " ++ e.message

/-- Whether an event is shown.  Debug events are shown only on request. -/
def isShown (verbose : Bool) (e : Event) : Bool := verbose || e.level != .debug

end Event
end ModuleAudit
