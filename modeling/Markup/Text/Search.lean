/-!
# Searching texts
-/

namespace Markup.Text

/-- What stands before and after the first place where a text contains a part. -/
def splitAround (part : List Char) : List Char → Option (List Char × List Char)
  | [] => if part.isEmpty then some ([], []) else none
  | first :: rest =>
    if part.isPrefixOf (first :: rest) then some ([], (first :: rest).drop part.length)
    else (splitAround part rest).map fun (before, after) => (first :: before, after)

/-- Whether a text contains a part. -/
def contains (part text : List Char) : Bool :=
  (splitAround part text).isSome

end Markup.Text
