import Treeline.Calendar
import Treeline.Text.Quoted
import Treeline.Text.Utf8

/-!
# Faults

A fault is a failure that no part of the program turns into a diagnostic of its own: a numeral that
is too long to convert, a character code that names no character, a value of the wrong shape. It
ends a run instead of being reported. `Stop` is the reason why an operation stops: an error that it
reports, or a fault.
-/

namespace Treeline

/-- A failure that ends a run. -/
inductive Fault
  /-- A numeral of too many digits was to be read. -/
  | longNumeral (digits : Nat)
  /-- A number of too many digits was to be written. -/
  | longNumber
  /-- A text that is no whole number in the given base. -/
  | notInteger (base : Nat) (text : String)
  /-- A text that is no decimal number. -/
  | notDecimal (text : String)
  /-- A whole number above every decimal number. -/
  | hugeNumber
  /-- A code above the last character. -/
  | characterCode
  /-- A code that is too large to be looked up. -/
  | hugeCode
  /-- Numbers that are no date or moment. -/
  | calendar (problem : CalendarProblem)
  /-- A file name that holds the null character. -/
  | nullInName
  /-- A number was to be read from a text that ends too early. -/
  | endOfText
  /-- A document was asked for that is not there. -/
  | noDocument
  /-- A word that a table does not hold. -/
  | unknownWord (word : String)
  /-- A text that does not have the form of a point of time. -/
  | notTimestamp
  /-- A mapping that stands where the text of a point of time is needed. -/
  | mappingAsText
  /-- A list of options that stands where a path text is needed. -/
  | listAsPath
  /-- A list of options that stands where a key is needed. -/
  | listAsKey
  /-- A list of options that stands where a number is needed. -/
  | listAsNumber
  /-- Something in a path that is not a segment. -/
  | straySegment (text : String)
  /-- Bytes that are not text. -/
  | undecodable (failure : Text.Utf8.Failure)
  /-- A text that cannot be encoded where it is delivered. -/
  | unencodable (reason : String)
  /-- Collections are nested too deep for the call stack. -/
  | exhaustedStack
  deriving DecidableEq

namespace Fault

/-- What all refusals of long numerals begin with. -/
def digitLimit : String :=
  "Exceeds the limit (" ++ Numeral.text Numeral.maxDigits
    ++ " digits) for integer string conversion"

/-- How much of a text is shown that is no whole number. -/
def shownLength : Nat := 200

def message : Fault → String
  | .longNumeral digits =>
    digitLimit ++ ": value has " ++ Numeral.text digits
      ++ " digits; use sys.set_int_max_str_digits() to increase the limit"
  | .longNumber => digitLimit ++ "; use sys.set_int_max_str_digits() to increase the limit"
  | .notInteger base text =>
    "invalid literal for int() with base " ++ Numeral.text base ++ ": "
      ++ String.ofList ((Text.quoted text).toList.take shownLength)
  | .notDecimal text => "could not convert string to float: " ++ Text.quoted text
  | .hugeNumber => "int too large to convert to float"
  | .characterCode => "chr() arg not in range(0x110000)"
  | .hugeCode => "Python int too large to convert to C int"
  | .calendar problem => problem.message
  | .nullInName => "embedded null byte"
  | .endOfText => "string index out of range"
  | .noDocument => "list index out of range"
  | .unknownWord word => Text.quoted word
  | .notTimestamp => "\x27NoneType\x27 object has no attribute \x27groupdict\x27"
  | .mappingAsText => "expected string or bytes-like object, got \x27list\x27"
  | .listAsPath => "\x27list\x27 object has no attribute \x27split\x27"
  | .listAsKey => "unhashable type: \x27list\x27"
  | .listAsNumber =>
    "\x27<\x27 not supported between instances of \x27list\x27 and \x27int\x27"
  | .straySegment text => "unsupported path segment: " ++ Text.quoted text
  | .undecodable failure => failure.message
  | .unencodable reason => reason
  | .exhaustedStack => "maximum recursion depth exceeded"

end Fault

/-- Why an operation stops. -/
inductive Stop (ε : Type)
  /-- An error of the operation's own. -/
  | reported (error : ε)
  | fault (fault : Fault)
  deriving DecidableEq

namespace Stop

def map {ε δ : Type} (f : ε → δ) : Stop ε → Stop δ
  | .reported e => .reported (f e)
  | .fault g => .fault g

def message {ε : Type} (text : ε → String) : Stop ε → String
  | .reported e => text e
  | .fault f => f.message

end Stop

end Treeline
