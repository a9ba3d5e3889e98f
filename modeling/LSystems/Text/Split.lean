/-!
# Splitting

A row of characters splits at the occurrences of a separator into one part more than
there are separators.
-/

namespace LSystems.Text

def splitAt (separator : Char) : List Char → List (List Char)
  | [] => [[]]
  | head :: tail =>
    match splitAt separator tail with
    | [] => [[head]]
    | first :: rest =>
        if head = separator then [] :: first :: rest else (head :: first) :: rest

example : splitAt '.' "a..b".toList = ["a".toList, [], "b".toList] := by decide +kernel

end LSystems.Text
