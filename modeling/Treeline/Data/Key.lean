import Treeline.Data
import Treeline.Number.Binary

/-!
# Keys of dictionaries

When two keys are the same, and which of two keys comes first. Numbers are the same if they have the
same value, whatever their type. Only keys of the same kind have an order: numbers, texts, bytes,
dates, moments, and tuples by their first difference.
-/

namespace Treeline.Datum

open Number (Binary)

def number? : Datum → Option Binary
  | .bool b => some (.ofInt (if b then 1 else 0))
  | .int i => some (.ofInt i)
  | .float x => some (.ofFloat x)
  | _ => none

/-- The two parts of a number that may be complex. -/
def parts? : Datum → Option (Binary × Binary)
  | .complex re im => some (.ofFloat re, .ofFloat im)
  | d => d.number?.map fun n => (n, .ofInt 0)

/-- Whether two moments are the same. One with an offset never equals one without. -/
def sameMoment (a b : Moment) : Bool :=
  a.offset.isSome == b.offset.isSome && a.instant == b.instant

mutual

def same : Datum → Datum → Bool
  | .tuple xs, .tuple ys => sameAll xs ys
  | .null, .null => true
  | .text s, .text t => s == t
  | .bytes s, .bytes t => s == t
  | .date s, .date t => s == t
  | .moment s, .moment t => sameMoment s t
  | d, e =>
    match d.parts?, e.parts? with
    | some (a, b), some (a', b') => a.same a' && b.same b'
    | _, _ => false

def sameAll : List Datum → List Datum → Bool
  | [], [] => true
  | x :: xs, y :: ys => same x y && sameAll xs ys
  | _, _ => false

end

def bytesLess : List UInt8 → List UInt8 → Bool
  | _, [] => false
  | [], _ :: _ => true
  | a :: as, b :: bs => a < b || (a == b && bytesLess as bs)

mutual

/-- Whether one key comes before another, if they have an order. -/
def less? : Datum → Datum → Option Bool
  | .tuple xs, .tuple ys => lessAll? xs ys
  | .text s, .text t => some (decide (s < t))
  | .bytes s, .bytes t => some (bytesLess s t)
  | .date s, .date t => some (decide (s.ordinal < t.ordinal))
  | .moment s, .moment t =>
    if s.offset.isSome = t.offset.isSome then some (decide (s.instant < t.instant)) else none
  | d, e =>
    match d.number?, e.number? with
    | some a, some b => some (a.less b)
    | _, _ => none

/-- Whether one list of keys comes before another, if their first difference has an order. -/
def lessAll? : List Datum → List Datum → Option Bool
  | _, [] => some false
  | [], _ :: _ => some true
  | x :: xs, y :: ys => if same x y then lessAll? xs ys else less? x y

end

/-- An entry of a dictionary. -/
abbrev Entry := Datum × Datum

def put (entries : List Entry) (key value : Datum) : List Entry :=
  match entries with
  | [] => [(key, value)]
  | (k, v) :: rest => if same k key then (k, value) :: rest else (k, v) :: put rest key value

/-- The entries of a dictionary that some entries are put into, in order of their first keys. -/
def settle (entries : List Entry) : List Entry :=
  entries.foldl (fun done entry => put done entry.1 entry.2) []

/-- Inserts an entry into sorted ones, behind those that do not come after it. -/
def insertSorted? (entry : Entry) : List Entry → Option (List Entry)
  | [] => some [entry]
  | other :: rest => do
    if ← less? entry.1 other.1 then return entry :: other :: rest
    else return other :: (← insertSorted? entry rest)

/-- Entries in the order of their keys, if all of them have one. -/
def sort? (entries : List Entry) : Option (List Entry) :=
  entries.foldlM (fun sorted entry => insertSorted? entry sorted) []

/-- The entries of a dictionary in the order in which they are written: that of their keys, or that
in which they were put in if the keys have none. -/
def written (entries : List Entry) : List Entry :=
  let settled := settle entries
  (sort? settled).getD settled

end Treeline.Datum
