import Treeline.Text.CodePoints

/-!
# Lower case

Text is compared without regard to case by its lower case form. Each capital letter has one small
letter, with two exceptions: the dotted capital I becomes two characters, and a capital sigma is
written differently at the end of a word.
-/

namespace Treeline.Text

/-- The small letter of a single code point. -/
def smallLetter (c : Char) : Char :=
  let n := c.toNat
  if n < 0x80 then
    if 0x41 ≤ n ∧ n ≤ 0x5A then Char.ofNat (n + 0x20) else c
  else
    match CodePoints.capitals.find? fun r =>
        r.first ≤ n && n ≤ r.last && (n - r.first) % r.step == 0 with
    | some r => Char.ofNat (Int.toNat (n + r.shift))
    | none => c

/-- Whether the nearest letter in `cs` that is not passed over has a case. -/
def reachesCased (cs : List Char) : Bool :=
  match cs.find? fun c => !CodePoints.contains CodePoints.caseIgnorable c.toNat with
  | some c => CodePoints.contains CodePoints.cased c.toNat
  | none => false

/-- The lower case of a text, given the characters before it in reverse. -/
def lowercaseAfter : (before : List Char) → List Char → List Char
  | _, [] => []
  | before, c :: rest =>
    let small :=
      if c = '\u03A3' then
        if reachesCased before && !reachesCased rest then ['\u03C2'] else ['\u03C3']
      else if c = '\u0130' then ['i', '\u0307']
      else [smallLetter c]
    small ++ lowercaseAfter (c :: before) rest

def lowercase (text : String) : String := String.ofList (lowercaseAfter [] text.toList)

end Treeline.Text
