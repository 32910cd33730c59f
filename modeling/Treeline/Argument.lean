/-!
# Arguments of options

An option of the command line takes one word. Two dashes attached to its flag take the word away
again: the option is given and holds nothing, which differs from an option that is not given.
-/

namespace Treeline

/-- What an option holds. -/
inductive Argument
  | word (text : String)
  | nothing
  deriving DecidableEq

namespace Argument

/-- How messages show what an option holds. -/
def shown : Argument → String
  | .word text => text
  | .nothing => "[]"

/-- The word that an option holds, if it has any characters. -/
def nonempty? : Argument → Option String
  | .word text => if text.isEmpty then none else some text
  | .nothing => none

end Argument

end Treeline
