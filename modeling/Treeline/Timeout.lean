/-!
# Timeouts

How long to wait for an answer, in seconds. Zero stands for no limit.
-/

namespace Treeline

/-- A time to wait, as a whole number or as one with a fraction. -/
inductive Timeout
  | whole (seconds : Int)
  | fractional (seconds : Float)

/-- Whether a time to wait is a limit. -/
def Timeout.isSet : Timeout → Bool
  | .whole seconds => seconds != 0
  | .fractional seconds => !(seconds == 0)

end Treeline
