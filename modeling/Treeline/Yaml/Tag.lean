import Treeline.Text.Split
import Treeline.Yaml.Timestamp

/-!
# Tags of values

The tag of a node says what kind of value it stands for. Plain text without a tag gets one by its
form: a truth value, a number, a point of time, nothing at all, or else text. Numbers may be written
in bases two, eight, ten, sixteen and sixty. A line feed at the end of the text does not count.
-/

namespace Treeline.Yaml.Tag

/-- What the standard tags begin with. -/
def standard : String := "tag:yaml.org,2002:"

def null : String := standard ++ "null"
def bool : String := standard ++ "bool"
def int : String := standard ++ "int"
def float : String := standard ++ "float"
def binary : String := standard ++ "binary"
def timestamp : String := standard ++ "timestamp"
def text : String := standard ++ "str"
def list : String := standard ++ "seq"
def dict : String := standard ++ "map"
def set : String := standard ++ "set"
def orderedMap : String := standard ++ "omap"
def pairs : String := standard ++ "pairs"
def merge : String := standard ++ "merge"
def value : String := standard ++ "value"
def indicator : String := standard ++ "yaml"

def nullWords : List String := ["", "~", "null", "Null", "NULL"]

def trueWords : List String := ["yes", "Yes", "YES", "true", "True", "TRUE", "on", "On", "ON"]

def falseWords : List String := ["no", "No", "NO", "false", "False", "FALSE", "off", "Off", "OFF"]

/-- A text without the sign that it may begin with. -/
def unsigned : List Char → List Char
  | '+' :: rest | '-' :: rest => rest
  | cs => cs

/-- Whether a character may stand inside a number. -/
def isDigitOrGap (c : Char) : Bool := isDigit c || c = '_'

/-- Whether a text is empty or an exponent with its sign. -/
def isExponent : List Char → Bool
  | [] => true
  | e :: sign :: digits =>
    (e = 'e' || e = 'E') && (sign = '+' || sign = '-') && !digits.isEmpty && digits.all isDigit
  | _ => false

/-- Whether a text is a place of a number in base sixty behind the first one. -/
def isSixtieth : List Char → Bool
  | [a] => isDigit a
  | [a, b] => '0' ≤ a && a ≤ '5' && isDigit b
  | _ => false

/-- Whether a text is a number in base sixty that starts with a digit from `least` on. -/
def isSexagesimal (least : Char) (cs : List Char) : Bool :=
  match Text.split ':' cs with
  | (c :: first) :: second :: more =>
    least ≤ c && c ≤ '9' && first.all isDigitOrGap && (second :: more).all isSixtieth
  | _ => false

def isInt (cs : List Char) : Bool :=
  match unsigned cs with
  | ['0'] => true
  | '0' :: 'b' :: digits =>
    !digits.isEmpty && digits.all fun c => c = '0' || c = '1' || c = '_'
  | '0' :: 'x' :: digits =>
    !digits.isEmpty && digits.all fun c => (Text.hexValue? c).isSome || c = '_'
  | '0' :: digits => digits.all fun c => ('0' ≤ c && c ≤ '7') || c = '_'
  | c :: digits =>
    ('1' ≤ c && c ≤ '9' && digits.all isDigitOrGap) || isSexagesimal '1' (c :: digits)
  | [] => false

/-- Whether a text is digits, a point and perhaps an exponent. -/
def isPointed : List Char → Bool
  | '.' :: c :: rest => isDigit c && isExponent (rest.dropWhile isDigitOrGap)
  | _ => false

def isFloat (cs : List Char) : Bool :=
  let body := unsigned cs
  let fraction := (body.dropWhile (· != '.')).drop 1
  let hasPoint := body.contains '.'
  let whole := body.takeWhile (· != '.')
  isPointed cs || ".nan".toList = cs || ".NaN".toList = cs || ".NAN".toList = cs
    || ".inf".toList = body || ".Inf".toList = body || ".INF".toList = body
    || (hasPoint && (whole.head?.any isDigit) && whole.all isDigitOrGap
      && isExponent (fraction.dropWhile isDigitOrGap))
    || (hasPoint && isSexagesimal '0' whole && fraction.all isDigitOrGap)

def isTimestamp (cs : List Char) : Bool := (Timestamp.parse? cs).any (·.isRecognised)

/-- The tag that a form of plain text has, if it is not just text. -/
def ofForm? (cs : List Char) : Option String :=
  let word := String.ofList cs
  if trueWords.contains word || falseWords.contains word then some bool
  else if isFloat cs then some float
  else if isInt cs then some int
  else if cs = ['<', '<'] then some merge
  else if nullWords.contains word then some null
  else if isTimestamp cs then some timestamp
  else if cs = ['='] then some value
  else if cs = ['!'] || cs = ['&'] || cs = ['*'] then some indicator
  else none

/-- A text without the line feed that it may end with. A line feed alone stays. -/
def withoutLineFeed (cs : List Char) : List Char :=
  if 1 < cs.length && cs.getLast? = some '\n' then cs.dropLast else cs

def ofPlain (cs : List Char) : String := (ofForm? (withoutLineFeed cs)).getD text

end Treeline.Yaml.Tag
