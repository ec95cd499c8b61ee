/-
  Unbundle.Tree.Path — paths as texts.

  Slashes cut a path into parts. Between slashes an empty part and a single dot lead nowhere, so they count for
  nothing when a path is shortened; a dot at the very beginning counts as a part. A path with a slash in front is
  absolute and begins at the root; any other begins at a place that the path does not tell.
-/

import Unbundle.Text.Lines

namespace Unbundle

/-- The names on the way from the root to a file or directory. -/
abbrev Place := List String

/-- `p` lies below `dir`, and is not `dir` itself. -/
def Place.isBelow (p dir : Place) : Bool := dir.isPrefixOf p && p != dir

namespace Path

/-- The parts of a path, those included that lead nowhere. -/
def parts (path : String) : List String := (Text.cutAt '/' path.toList).map String.ofList

/-- Parts with a slash between each two. -/
def ofParts (ps : List String) : String := "/".intercalate ps

/-- The path of a file in a directory. -/
def join (dir file : String) : String :=
  if dir = "" ∨ dir.toList.getLast? = some '/' then dir ++ file else dir ++ "/" ++ file

/-- A path that begins at the root. -/
def isAbsolute (path : String) : Bool := path.toList.head? = some '/'

/-- Parts that lead nowhere. -/
def isIdle (part : String) : Bool := part = "" || part = "."

/-- The place that the parts at the front lead to as long as they go no way but up, and the parts behind them. -/
def climb : Place → List String → Place × List String
  | p, [] => (p, [])
  | p, part :: rest =>
    if isIdle part then climb p rest
    else if part = ".." then climb p.dropLast rest
    else (p, part :: rest)

/-- The place that a path begins at, seen from a working directory, and the parts that are left from there. -/
def origin (here : Place) (path : String) (parts : List String) : Place × List String :=
  if isAbsolute path then ([], parts) else climb here parts

/-- A path, last part first, and all that lies above it; none of them ends with an idle part. -/
def shortened : List String → List (List String)
  | [] => []
  | part :: above =>
    if part = "" ∨ (part = "." ∧ above ≠ []) then shortened above
    else (part :: above) :: shortened above

/-- The paths above a path, the nearest first; the empty path is not listed. Nothing lies above the root. -/
def above (path : String) : List String :=
  match shortened (parts path).reverse with
  | [] => []
  | _ :: higher => higher.map (fun ps => ofParts ps.reverse) ++ if isAbsolute path then ["/"] else []

/-- The directory that a path names its last part in: empty if the path has one part only. -/
def parent (path : String) : String := (above path).head?.getD ""

/-- The parts of a path without the slashes at its end. -/
def partsToMake (path : String) : List String := ((parts path).reverse.dropWhile (· = "")).reverse

example : above "a/./b//c/" = ["a/./b", "a"] ∧ above "./a/.." = ["./a", "."] := by decide
example : above "/a/b" = ["/a", "/"] ∧ above "//" = [] := by decide
example : parent "r//x" = "r" ∧ parent "x" = "" ∧ parent "new/." = "" := by decide

example : climb ["a", "b"] (parts ".././/../c/..") = ([], ["c", ".."]) := by decide

end Path

end Unbundle
