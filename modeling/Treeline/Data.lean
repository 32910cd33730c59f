import Treeline.Calendar
import Treeline.Numeral

/-!
# Plain data

Data that programs exchange: lists and dictionaries over texts, numbers, truth values, bytes and
points of time. A container can occur at several places, and even inside itself. Such containers are
defined beside the data and referred to by number.
-/

namespace Treeline

/-- A piece of data. -/
inductive Datum
  | null
  | bool (b : Bool)
  | int (i : Int)
  | float (x : Float)
  | text (s : String)
  | bytes (bytes : List UInt8)
  | date (date : Date)
  | moment (moment : Moment)
  | complex (re im : Float)
  | list (items : List Datum)
  | tuple (items : List Datum)
  | set (items : List Datum)
  /-- Entries as they were put in: a key that comes again replaces the value of the first one. -/
  | dict (entries : List (Datum × Datum))
  /-- A container that is defined beside the data. -/
  | shared (id : Nat)

/-- A piece of data, and the containers that it refers to. -/
structure Data where
  root : Datum
  definitions : Array Datum

namespace Data

/-- Data in which no container occurs twice. -/
def ofDatum (root : Datum) : Data := ⟨root, #[]⟩

end Data

end Treeline
