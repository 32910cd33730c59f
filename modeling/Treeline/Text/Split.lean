/-!
# Splitting text

A text is split at each occurrence of a character. The parts are what stands between; there is one
more of them than there are occurrences.
-/

namespace Treeline.Text

/-- The parts of a text between the occurrences of a character. -/
def split (separator : Char) : List Char → List (List Char)
  | [] => [[]]
  | c :: rest =>
    if c = separator then [] :: split separator rest
    else match split separator rest with
      | [] => [[c]]
      | part :: more => (c :: part) :: more

end Treeline.Text
