import HotReload.Script.IdentifierTable
import HotReload.Text.Bytes

/-!
# Character classes of scripts

Blanks, line ends, and the characters of identifiers.
-/

namespace HotReload
namespace Script

/-- A line end. -/
def isLineEnd (c : Char) : Bool :=
  c = '\n' || c = '\r' || c = '\u2028' || c = '\u2029'

/-- A blank that is no line end: tabs, spaces of any width, and the byte order mark. -/
def isBlank (c : Char) : Bool :=
  c = ' ' || c = '\t' || c = '\x0b' || c = '\x0c' || c = '\u0085' || c = '\u00a0' || c = '\u1680' ||
    (0x2000 ≤ c.toNat && c.toNat ≤ 0x200B) || c = '\u202f' || c = '\u205f' || c = '\u3000' ||
    c = '\ufeff'

/-- A character that may start an identifier. -/
def isIdentifierStart (c : Char) : Bool :=
  Text.isLetter c || c = '$' || c = '_' || (c.toNat ≥ 0x80 && inRanges c.toNat identifierStarts)

/-- A character that may stand inside an identifier. -/
def isIdentifierPart (c : Char) : Bool :=
  Text.isAlphanumeric c || c = '$' || c = '_' ||
    (c.toNat ≥ 0x80 && (inRanges c.toNat identifierStarts || inRanges c.toNat identifierParts))

end Script
end HotReload
