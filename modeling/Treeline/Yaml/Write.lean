import Treeline.Yaml.Outline
import Treeline.Yaml.Page

/-!
# Writing documents

Collections are written in block style, one entry or item to a line, and empty ones as a pair of
brackets. A key that is short and on one line stands before a colon; any other key gets a line of
its own behind a question mark.
-/

namespace Treeline.Yaml

/-- The written form of a tag. -/
def tagText (tag : String) : List Char :=
  '!' :: '!' :: tag.toList.drop Tag.standard.length

/-- The length from which on a key does not stand before a colon. -/
def longKey : Nat := 128

namespace Outline

/-- The anchor that a label has, if it has one. -/
def anchor? (anchored : List Nat) (label : Nat) : Option (List Char) :=
  (anchored.idxOf? label).map fun n => anchorName (n + 1)

/-- How long the properties and the text of a key are. The tag counts even where it is not
written. -/
def keyLength (anchored : List Nat) : Outline → Nat
  | .scalar tag text => (tagText tag).length + text.length
  | .sequence label _ =>
    ((label.bind (anchor? anchored)).getD []).length + (tagText Tag.list).length
  | .mapping label tag _ =>
    ((label.bind (anchor? anchored)).getD []).length + (tagText tag).length
  | .again label => ((anchor? anchored label).getD []).length

/-- Whether a key can stand before a colon. -/
def isSimpleKey (anchored : List Nat) (o : Outline) : Bool :=
  decide (keyLength anchored o < longKey) &&
    match o with
    | .again _ => true
    | .scalar _ text => !text.isEmpty && ScalarStyle.isSingleLine text
    | .sequence _ items => items.isEmpty
    | .mapping _ _ entries => entries.isEmpty

/-- Where something is written. -/
inductive Spot
  | root
  | item
  /-- A key before a colon. -/
  | simpleKey
  /-- A value, or a key behind a question mark. -/
  | part
  deriving DecidableEq

/-- The column of what is written inside something at a column. There is none at the root. -/
def inner (indent : Option Nat) (atRoot : Nat) : Nat :=
  match indent with
  | none => atRoot
  | some n => n + Page.levelWidth

def putAnchor (anchored : List Nat) (label : Option Nat) (p : Page) : Page :=
  match label.bind (anchor? anchored) with
  | none => p
  | some name => p.sign ('&' :: name) true

def putScalar (indent : Option Nat) (spot : Spot) (tag : String) (text : List Char) (p : Page) :
    Page :=
  let style := ScalarStyle.choose tag text (spot = .simpleKey)
  let p := if style.needsTag tag text then p.sign (tagText tag) true else p
  let p := p.scalar style (spot != .simpleKey) (inner indent Page.levelWidth) text
  if style = .plain && spot = .root then { p with isOpen := true } else p

mutual

/-- Writes an outline at a column. -/
def put (anchored : List Nat) (indent : Option Nat) (spot : Spot) : Outline → Page → Page
  | .scalar tag text, p => putScalar indent spot tag text p
  | .again label, p => p.sign ('*' :: (anchor? anchored label).getD []) true
  | .sequence label items, p =>
    let p := putAnchor anchored label p
    if items.isEmpty then (p.sign ['['] true).sign [']'] false
    else
      let isFlush := (spot = .part || spot = .simpleKey) && !p.isIndentation
      let column := match indent with
        | some n => if isFlush then n else n + Page.levelWidth
        | none => 0
      putItems anchored column items p
  | .mapping label tag entries, p =>
    let p := putAnchor anchored label p
    let p := if tag = Tag.dict then p else p.sign (tagText tag) true
    if entries.isEmpty then (p.sign ['\x7b'] true).sign ['\x7d'] false
    else putEntries anchored (inner indent 0) entries p

def putItems (anchored : List Nat) (column : Nat) : List Outline → Page → Page
  | [], p => p
  | item :: rest, p =>
    putItems anchored column rest
      (put anchored (some column) .item item ((p.indentTo column).leadingSign '-'))

def putEntries (anchored : List Nat) (column : Nat) : List (Outline × Outline) → Page → Page
  | [], p => p
  | (key, value) :: rest, p =>
    let p := p.indentTo column
    let p :=
      if key.isSimpleKey anchored then
        (put anchored (some column) .simpleKey key p).sign [':'] false
      else
        ((put anchored (some column) .part key (p.leadingSign '?')).indentTo column).leadingSign ':'
    putEntries anchored column rest (put anchored (some column) .part value p)

end

def write (o : Outline) : List Char :=
  let p := (put o.anchored none .root o .empty).indentTo 0
  (if p.isOpen then (p.sign ['.', '.', '.'] true).indentTo 0 else p).text

end Outline

end Treeline.Yaml
