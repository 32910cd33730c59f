/-!
# Line ends of text files

Text files are read with every line end turned into a line feed.
-/

namespace Treeline.Text

/-- Turns carriage returns, alone or before a line feed, into line feeds. -/
def unifyNewlines : List Char → List Char
  | [] => []
  | '\r' :: '\n' :: rest => '\n' :: unifyNewlines rest
  | '\r' :: rest => '\n' :: unifyNewlines rest
  | c :: rest => c :: unifyNewlines rest

/-- Lines with a line feed after each. -/
def joinLines (lines : List String) : String :=
  String.join (lines.map fun line => line ++ "\n")

end Treeline.Text
