/-
Module specifiers: the texts by which scripts name other modules.
-/

namespace ModuleAudit
namespace Specifier

/-- A specifier of a local file starts with a dot; all others name packages. -/
def isRelative (specifier : String) : Bool := specifier.toList.head? == some '.'

end Specifier
end ModuleAudit
