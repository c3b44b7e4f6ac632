import ModuleAudit.Event
import ModuleAudit.Path.Basic
import ModuleAudit.Script.Program
import ModuleAudit.Specifier.Textual

/-
Strategies for finding the specifiers of a file.

A strategy is a single way of finding specifiers, or a pair of strategies of which the second is
used where the first fails.  A single strategy may be any function of the text and the path of a
file.
-/

namespace ModuleAudit

namespace Strategy

/-- A file that a strategy could not make sense of. -/
structure Fault where
  message : String
  deriving DecidableEq, Repr

/-- One way of finding specifiers. -/
structure Single where
  name : String
  extract : (content path : String) → Except Fault (List String)

end Strategy

inductive Strategy where
  | single (s : Strategy.Single)
  | fallback (primary second : Strategy)

namespace Strategy

def name : Strategy → String
  | single s => s.name
  | fallback primary second => primary.name ++ "+" ++ second.name

/-- The specifiers of a file, with an event for every strategy that failed and was replaced. -/
def extract (content path : String) : Strategy → Except Fault (List String) × List Event
  | single s => (s.extract content path, [])
  | fallback primary second =>
    match primary.extract content path with
    | (.ok specifiers, events) => (.ok specifiers, events)
    | (.error fault, events) =>
      let (result, more) := second.extract content path
      (result, events ++ .fellBack primary.name fault.message second.name :: more)

/-! ## Single strategies -/

/-- Patterns in the plain text; never fails. -/
def textual : Strategy :=
  single { name := "regex", extract := fun content _ => .ok (Specifier.Textual.extract content) }

/-- How a file is called in messages. -/
def shownPath (path : String) : String := if path == "" then "<source>" else path

/-- The syntax tree of the file; fails on a syntax error. -/
def syntactic : Strategy :=
  single
    { name := "tree-sitter"
      extract := fun content path =>
        let dialect := Script.Dialect.ofExtension (Path.extension path)
        match Script.Program.parse dialect content with
        | some tree => .ok tree.specifiers
        | none => .error ⟨shownPath path ++ ": syntax error"⟩ }

/-- Always the same specifiers. -/
def fixed (specifiers : List String) : Strategy :=
  single { name := "fixed", extract := fun _ _ => .ok specifiers }

/-- Fails on every file. -/
def failing (message : String) : Strategy :=
  single { name := "failing", extract := fun _ _ => .error ⟨message⟩ }

/-- The syntax tree where there is one, else the plain text. -/
def standard : Strategy := fallback syntactic textual

end Strategy
end ModuleAudit
