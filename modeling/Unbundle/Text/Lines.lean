/-
  Unbundle.Text.Lines — a text as a list of lines.

  A line ends at a line feed, and one carriage return right before the line feed belongs to the line end.
  A line feed at the end of the text ends the last line and starts no other; a last line without a line
  feed keeps its carriage return.
-/

namespace Unbundle.Text

/-- The lines of a text. -/
def cutLines : List Char → List (List Char)
  | [] => []
  | '\n' :: cs => [] :: cutLines cs
  | '\r' :: '\n' :: cs => [] :: cutLines cs
  | c :: cs =>
    match cutLines cs with
    | [] => [[c]]
    | line :: rest => (c :: line) :: rest

/-- The lines of a text, as strings. -/
def lines (text : String) : List String := (cutLines text.toList).map String.ofList

/-- Every line followed by a line feed. -/
def unlines (ls : List String) : String := String.join (ls.map (· ++ "\n"))

/-- The parts of a text between the separators: one more than there are separators. -/
def cutAt (sep : Char) : List Char → List (List Char)
  | [] => [[]]
  | c :: cs =>
    if c = sep then [] :: cutAt sep cs
    else
      match cutAt sep cs with
      | [] => [[c]]
      | part :: rest => (c :: part) :: rest

end Unbundle.Text
