import ModuleAudit.Decimal.Binary64
import ModuleAudit.Table

/-
JSON values.

Whole numbers are kept exactly; numbers with a fraction or an exponent are rounded to binary
floating point.  The members of an object keep the order in which their keys first came.
-/

namespace ModuleAudit

inductive Json where
  | null
  | bool (b : Bool)
  | int (n : Int)
  | float (x : Binary64)
  | string (s : String)
  | array (items : List Json)
  | object (members : List (String × Json))

namespace Json

/-- The member of an object under a key; other values have none. -/
def member? (key : String) : Json → Option Json
  | object members => members.lookup key
  | _ => none

/-- The text of a string that is not empty. -/
def text? : Json → Option String
  | string s => if s == "" then none else some s
  | _ => none

end Json
end ModuleAudit
