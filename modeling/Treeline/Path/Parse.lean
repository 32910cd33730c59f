import Treeline.Fault
import Treeline.Path
import Treeline.Text.Split

/-!
# Reading paths

A path text is a list of tokens between dots. A token is a field name without brackets, followed by
any number of groups in square brackets, each of which holds an index. Only the first token may have
an empty name, and only if a group follows; the empty text is the path to the root. The leftmost
token that breaks a rule is reported.
-/

namespace Treeline.Path

/-- What is wrong with a token. -/
inductive Reason
  /-- Opening and closing brackets differ in number. -/
  | unmatchedBracket
  /-- As many brackets open as close, but not around groups behind a name. -/
  | misplacedBracket
  | emptyName
  | notNumber (group : String)
  deriving DecidableEq

def Reason.message : Reason → String
  | .unmatchedBracket => "unmatched bracket"
  | .misplacedBracket => "misplaced bracket"
  | .emptyName => "empty field name"
  | .notNumber group => "non-numeric index [" ++ group ++ "]"

/-- A text that is not a path, the token that breaks a rule, and the rule. -/
structure Malformed where
  text : String
  token : String
  reason : Reason
  deriving DecidableEq

def Malformed.message (m : Malformed) : String :=
  "invalid path " ++ Text.quoted m.text ++ ": " ++ m.reason.message ++ " in "
    ++ Text.quoted m.token

/-- Whether a character may stand in a name or inside a group. -/
def isPlain (c : Char) : Bool := c != '[' && c != ']'

/-- The contents of the groups that a text consists of. -/
def groups? : List Char → Option (List (List Char))
  | [] => some []
  | '[' :: rest =>
    match _ : rest.dropWhile isPlain with
    | ']' :: more => (groups? more).map (rest.takeWhile isPlain :: ·)
    | _ => none
  | _ => none
termination_by cs => cs.length
decreasing_by
  have := (List.dropWhile_sublist isPlain (l := rest)).length_le
  simp_all
  omega

/-- A name and the contents of the groups behind it. -/
structure Token where
  name : List Char
  groups : List (List Char)

/-- Splits a token into its name and its groups. -/
def token? (cs : List Char) : Option Token :=
  (groups? (cs.dropWhile isPlain)).map fun groups => ⟨cs.takeWhile isPlain, groups⟩

/-- The digits of a whole number and whether a minus sign stands before them. -/
def number? (cs : List Char) : Option (Bool × List Char) :=
  let (negative, digits) := match cs with
    | '-' :: digits => (true, digits)
    | digits => (false, digits)
  if !digits.isEmpty && digits.all fun c => '0' ≤ c && c ≤ '9' then some (negative, digits)
  else none

def readIndex (group : List Char) : Except (Stop Reason) Segment :=
  match number? group with
  | none => .error (.reported (.notNumber (String.ofList group)))
  | some (negative, digits) =>
    if Numeral.maxDigits < digits.length then .error (.fault (.longNumeral digits.length))
    else
      let n : Int := Numeral.value digits
      .ok (.index (if negative then -n else n))

/-- Reads one token. Only the first token may consist of groups alone. -/
def readToken (isFirst : Bool) (cs : List Char) : Except (Stop Reason) Path :=
  match token? cs with
  | none =>
    .error (.reported
      (if cs.count '[' = cs.count ']' then .misplacedBracket else .unmatchedBracket))
  | some ⟨name, groups⟩ =>
    if name.isEmpty && (!isFirst || groups.isEmpty) then .error (.reported .emptyName)
    else do
      let indices ← groups.mapM readIndex
      return (if name.isEmpty then indices else .field (String.ofList name) :: indices)

def readTokens (text : String) : (isFirst : Bool) → List (List Char) → Except (Stop Malformed) Path
  | _, [] => .ok []
  | isFirst, token :: rest =>
    match readToken isFirst token with
    | .error stop =>
      .error (stop.map fun reason => ⟨text, String.ofList token, reason⟩)
    | .ok segments => (readTokens text false rest).map (segments ++ ·)

def parse (text : String) : Except (Stop Malformed) Path :=
  if text.isEmpty then .ok [] else readTokens text true (Text.split '.' text.toList)

end Treeline.Path
