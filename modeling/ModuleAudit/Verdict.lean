/-
The verdict on a project, and the exit code that stands for it.
-/

namespace ModuleAudit

/-- The checks, or their outcomes. -/
structure Checks where
  circular : Bool := false
  unused : Bool := false
  packages : Bool := false
  deriving DecidableEq, Repr

namespace Checks

def any (c : Checks) : Bool := c.circular || c.unused || c.packages

def all : Checks := { circular := true, unused := true, packages := true }

/-- The checks that are in both. -/
def both (a b : Checks) : Checks :=
  { circular := a.circular && b.circular
    unused := a.unused && b.unused
    packages := a.packages && b.packages }

end Checks

inductive Verdict where
  | ok
  | circular
  | unused
  | circularAndUnused
  | unusedPackages
  /-- Unused packages, and cycles or unused modules as well. -/
  | combined
  | fatal
  deriving DecidableEq, Repr

namespace Verdict

def code : Verdict → Nat
  | ok => 0
  | circular => 1
  | unused => 2
  | circularAndUnused => 3
  | unusedPackages => 4
  | combined => 7
  | fatal => 70

def name : Verdict → String
  | ok => "OK"
  | circular => "CIRCULAR"
  | unused => "UNUSED"
  | circularAndUnused => "CIRCULAR_AND_UNUSED"
  | unusedPackages => "UNUSED_DEPS"
  | combined => "UNUSED_DEPS_COMBINED"
  | fatal => "FATAL"

/-- The verdict on failed checks. -/
def ofFailures (failed : Checks) : Verdict :=
  if failed.packages then
    if failed.circular || failed.unused then combined else unusedPackages
  else if failed.circular && failed.unused then circularAndUnused
  else if failed.circular then circular
  else if failed.unused then unused
  else ok

end Verdict
end ModuleAudit
