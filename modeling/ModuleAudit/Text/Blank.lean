/-
Blank characters: the white space of all scripts.

The set holds the separators of the ASCII range as well.  Zero-width spaces and the byte order
mark are not in it.
-/

namespace ModuleAudit
namespace Text

def isBlank (c : Char) : Bool :=
  let n := c.toNat
  (0x09 ≤ n && n ≤ 0x0D) || (0x1C ≤ n && n ≤ 0x20) || n == 0x85 || n == 0xA0 || n == 0x1680 ||
    (0x2000 ≤ n && n ≤ 0x200A) || n == 0x2028 || n == 0x2029 || n == 0x202F || n == 0x205F ||
    n == 0x3000

end Text
end ModuleAudit
