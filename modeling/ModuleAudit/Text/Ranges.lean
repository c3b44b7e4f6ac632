/-
Sets of characters given by ranges of code points.
-/

namespace ModuleAudit
namespace Text

/-- Ranges of code points in increasing order, both ends included. -/
abbrev Ranges := List (Nat × Nat)

namespace Ranges

/-- Whether a code point lies in one of the ranges.  The search stops at the first range that
starts above it. -/
def contains : Ranges → Nat → Bool
  | [], _ => false
  | (low, high) :: rest, n => if n < low then false else n ≤ high || contains rest n

end Ranges
end Text
end ModuleAudit
