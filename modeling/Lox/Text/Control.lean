/-
Control characters: those of the general category Other of the Unicode standard, version 17. It holds
control, format, surrogate, private-use and unassigned code points, which is all that is neither
printable nor a separator.
-/
import Lox.Text.Printable

namespace Lox.Text

/-- The code points of the separators: spaces, and the ends of a line and of a paragraph. -/
def separatorRanges : CodeRanges :=
  [(0x20, 0x20), (0xA0, 0xA0), (0x1680, 0x1680), (0x2000, 0x200A), (0x2028, 0x2029),
    (0x202F, 0x202F), (0x205F, 0x205F), (0x3000, 0x3000)]

/-- Is the character a separator? -/
def isSeparator (c : Char) : Bool := separatorRanges.has c

/-- Is the character a control character? -/
def isControl (c : Char) : Bool := !isPrintable c && !isSeparator c

end Lox.Text
