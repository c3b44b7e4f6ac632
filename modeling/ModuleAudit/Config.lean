import ModuleAudit.Scan
import ModuleAudit.Verdict

/-
What to analyse and which findings count as failures.
-/

namespace ModuleAudit

structure Config where
  sourceDir : String := "."
  entryPoint : Option String := none
  testDir : Option String := none
  /-- Every check counts, unless some are asked for by name. -/
  ci : Bool := false
  failOn : Checks := {}
  cacheSize : Int := 500
  filter : Scan.Filter := {}

namespace Config

/-- The checks whose findings count as failures. -/
def enabled (c : Config) : Checks := if c.ci && !c.failOn.any then .all else c.failOn

end Config
end ModuleAudit
