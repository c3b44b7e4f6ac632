/-
The three dialects of script a source file can be written in.

The dialect is chosen from the extension of a file's name alone.  It decides which constructs the
parser admits: type annotations in `typescript` and `tsx`, markup elements in `javascript` and
`tsx`, and the rule by which a line end closes a statement.
-/

namespace ModuleAudit
namespace Script

inductive Dialect where
  | javascript
  | typescript
  | tsx
  deriving DecidableEq, Repr

namespace Dialect

def name : Dialect → String
  | javascript => "javascript"
  | typescript => "typescript"
  | tsx => "tsx"

/-- Types may be written. -/
def typed : Dialect → Bool
  | javascript => false
  | _ => true

/-- An expression may be a markup element. -/
def markup : Dialect → Bool
  | typescript => false
  | _ => true

/-- The extensions with a dialect of their own, in the order in which they are listed. -/
def byExtension : List (String × Dialect) :=
  [(".js", javascript), (".jsx", javascript), (".mjs", javascript), (".jest", javascript),
    (".ts", typescript), (".tsx", tsx)]

/-- The dialect of a file with extension `ext`.  Unknown extensions are read as plain scripts. -/
def ofExtension (ext : String) : Dialect :=
  (byExtension.lookup ext).getD javascript

end Dialect
end Script
end ModuleAudit
