import Treeline.Yaml.Token.Tag

/-!
# Directives

A directive is a line that begins with a percent sign and a name. The version directive and the tag
directive have a value; what other directives say is passed over.
-/

namespace Treeline.Yaml.Token

def readDirectiveName (start : Mark) (c : Cursor) : Result (List Char × Cursor) :=
  let name := c.takeWhile isWord
  let after := c.skipWhile isWord
  if name.isEmpty || !isSpaceOrEnd after.char then
    refuseIn .directive start (.expected .wordCharacter after.char) after.mark
  else .ok (name, after)

/-- Reads one of the two numbers of a version. -/
def readVersionNumber (start : Mark) (c : Cursor) : Result (Nat × Cursor) :=
  let digits := c.takeWhile isDigit
  if digits.isEmpty then refuseIn .directive start (.expected .digit c.char) c.mark
  else if Numeral.maxDigits < digits.length then .error (.fault (.longNumeral digits.length))
  else .ok (Numeral.value digits, c.skipWhile isDigit)

/-- Reads a version. Only its first number counts. -/
def readVersion (start : Mark) (c : Cursor) : Result (Directive × Cursor) := do
  let (major, c) ← readVersionNumber start c.skipSpaces
  if c.char ≠ '.' then refuseIn .directive start (.expected .digitOrDot c.char) c.mark
  else
    let (_, c) ← readVersionNumber start c.next
    if isSpaceOrEnd c.char then return (.version major, c)
    else refuseIn .directive start (.expected .digitOrSpace c.char) c.mark

/-- Reads a handle and what it stands for. -/
def readTagDirective (start : Mark) (c : Cursor) : Result (Directive × Cursor) := do
  let (handle, c) ← readHandle .directive start c.skipSpaces
  if c.char ≠ ' ' then refuseIn .directive start (.expected .space c.char) c.mark
  else
    let (stem, c) ← readTagName .directive .directiveName start c.skipSpaces
    if isSpaceOrEnd c.char then return (.tag handle stem, c)
    else refuseIn .directive start (.expected .space c.char) c.mark

/-- Reads a directive up to the end of its line. -/
def readDirective (c : Cursor) : Result (Token × Cursor) := do
  let (name, after) ← readDirectiveName c.mark c.next
  let (directive, after) ←
    if name = "YAML".toList then readVersion c.mark after
    else if name = "TAG".toList then readTagDirective c.mark after
    else pure (.other, after)
  let stop := after.mark
  let after := if directive = .other then after.skipLine else after
  return (⟨.directive directive, c.mark, stop⟩, ← endLine .directive c.mark after)

end Treeline.Yaml.Token
