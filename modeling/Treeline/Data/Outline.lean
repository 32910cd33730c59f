import Treeline.Base64
import Treeline.Data.Key
import Treeline.Number.Decimal
import Treeline.Yaml.Outline

/-!
# Outlines of data

How data is laid out as a document. Dictionaries are sorted. A shared container is laid out where it
is met first; where it is met again, its label stands.
-/

namespace Treeline.Data

open Yaml

/-- A number that no document can hold. -/
structure Unwritable where
  re : Float
  im : Float

/-- The text of a complex number in messages. -/
def Unwritable.shown (u : Unwritable) : String :=
  let im := Number.Decimal.writeBrief u.im
  let re := Number.Decimal.writeBrief u.re
  if re = ['0'] then String.ofList (im ++ ['j'])
  else
    let sign := if im.head? = some '-' then [] else ['+']
    String.ofList ('(' :: (re ++ sign ++ im ++ ['j', ')']))

/-- A step of laying out. The state holds the shared containers that were met. -/
abbrev Layout := StateT (List Nat) (Except (Stop Unwritable))

/-- The text of a floating-point number in a document. It always has a point. -/
def floatText (x : Float) : List Char :=
  match Number.Binary.ofFloat x with
  | .nan => ['.', 'n', 'a', 'n']
  | .infinite isNegative => (if isNegative then ['-'] else []) ++ ['.', 'i', 'n', 'f']
  | .finite _ _ _ =>
    let cs := Number.Decimal.write x
    if cs.contains '.' then cs
    else
      let digits := cs.takeWhile (· != 'e')
      digits ++ '.' :: '0' :: cs.drop digits.length

/-- The text of a whole number, unless it is too long. -/
def intText (i : Int) : Layout (List Char) :=
  if Numeral.isShort i then return Numeral.ofInt i else throw (.fault .longNumber)

mutual

/-- Lays out a piece of data. `expand` lays out a shared container. -/
def layout (expand : Nat → Layout Outline) (label : Option Nat) : Datum → Layout Outline
  | .null => return .scalar Tag.null "null".toList
  | .bool b => return .scalar Tag.bool (if b then "true".toList else "false".toList)
  | .int i => return .scalar Tag.int (← intText i)
  | .float x => return .scalar Tag.float (floatText x)
  | .text s => return .scalar Tag.text s.toList
  | .bytes bytes => return .scalar Tag.binary (Base64.encodeLines bytes)
  | .date date => return .scalar Tag.timestamp date.iso
  | .moment moment => return .scalar Tag.timestamp moment.iso
  | .complex re im => throw (.reported ⟨re, im⟩)
  | .list items => return .sequence label (← layoutItems expand items)
  | .tuple items =>
    return .sequence (if items.isEmpty then none else label) (← layoutItems expand items)
  | .set items => do
    let entries ← layoutKeys expand items
    return .mapping label Tag.set (entries.map fun key => (key, .scalar Tag.null "null".toList))
  | .dict entries => return .mapping label Tag.dict (← layoutEntries expand entries)
  | .shared id => expand id

def layoutItems (expand : Nat → Layout Outline) : List Datum → Layout (List Outline)
  | [] => return []
  | item :: rest => do
    let outline ← layout expand none item
    return outline :: (← layoutItems expand rest)

def layoutKeys (expand : Nat → Layout Outline) : List Datum → Layout (List Outline)
  | [] => return []
  | item :: rest => do
    let outline ← layout expand none item
    return outline :: (← layoutKeys expand rest)

def layoutEntries (expand : Nat → Layout Outline) :
    List (Datum × Datum) → Layout (List (Outline × Outline))
  | [] => return []
  | (key, value) :: rest => do
    let keyOutline ← layout expand none key
    let valueOutline ← layout expand none value
    return (keyOutline, valueOutline) :: (← layoutEntries expand rest)

end

mutual

/-- Data with the entries of all dictionaries and the members of all sets in the order in which they
are written. -/
def ordered : Datum → Datum
  | .list items => .list (orderedItems items)
  | .tuple items => .tuple (orderedItems items)
  | .set items =>
    .set ((Datum.written ((orderedItems items).map fun key => (key, Datum.null))).map (·.1))
  | .dict entries => .dict (Datum.written (orderedEntries entries))
  | d => d

def orderedItems : List Datum → List Datum
  | [] => []
  | item :: rest => ordered item :: orderedItems rest

def orderedEntries : List (Datum × Datum) → List (Datum × Datum)
  | [] => []
  | (key, value) :: rest => (ordered key, ordered value) :: orderedEntries rest

end

/-- Lays out a shared container where it is met. Each is laid out once, so as many steps down as
there are containers suffice. -/
def expand (definitions : Array Datum) : (fuel : Nat) → Nat → Layout Outline
  | 0, id => return .again id
  | fuel + 1, id => do
    let body := definitions[id]?.getD .null
    if (← get).contains id then
      match body with
      | .tuple [] => return .sequence none []
      | _ => return .again id
    else
      modify (id :: ·)
      layout (expand definitions fuel) (some id) (ordered body)

def outline (data : Data) : Except (Stop Unwritable) Outline :=
  ((layout (expand data.definitions (data.definitions.size + 1)) none (ordered data.root)).run
    []).map (·.1)

end Treeline.Data
