import ModuleAudit.Text.Utf8

/-
Why a file or a directory could not be read.
-/

namespace ModuleAudit
namespace Disk

inductive Fault where
  | missing (path : String)
  | notFolder (path : String)
  | isFolder (path : String)
  /-- The file was read and is not text. -/
  | undecodable (fault : Text.Utf8.Fault)
  deriving DecidableEq, Repr

namespace Fault

def message : Fault → String
  | missing path => "[Errno 2] No such file or directory: " ++ Text.quoted path
  | notFolder path => "[Errno 20] Not a directory: " ++ Text.quoted path
  | isFolder path => "[Errno 21] Is a directory: " ++ Text.quoted path
  | undecodable fault => fault.message

end Fault
end Disk
end ModuleAudit
