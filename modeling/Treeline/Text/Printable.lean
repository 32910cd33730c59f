import Treeline.Text.CodePoints

/-!
# Printable characters

A character is printable unless it is a control, format, surrogate, private or unassigned code
point, or a separator other than the ASCII space. ASCII is decided by a comparison; all other code
points are looked up in the ranges of the property.
-/

namespace Treeline.Text

/-- Whether a character is shown as itself when text is quoted. -/
def isPrintable (c : Char) : Bool :=
  if c.toNat < 0x7F then decide (0x20 ≤ c.toNat)
  else c.toNat != 0x7F && !CodePoints.contains CodePoints.unprintable c.toNat

end Treeline.Text
