/-
  Unbundle.Command.Report — how a run that failed is told to the user.
-/

import Unbundle.Failure
import Unbundle.Text.Lines

namespace Unbundle.Command

/-- What could not be done, and the texts of what stood behind it, the nearest first. -/
structure Report where
  text : String
  causes : List String
  deriving DecidableEq, Repr

namespace Report

/-- A failure that needs no more words. -/
def ofFailure (f : Failure) : Report := ⟨f.message, f.causes⟩

/-- A failure with what it stood in the way of. -/
def within (text : String) (f : Failure) : Report := ⟨text, f.message :: f.causes⟩

/-- A text whose lines after the first are moved in. -/
def hang (first next text : String) : String :=
  match (Text.cutAt '\n' text.toList).map String.ofList with
  | [] => first
  | line :: rest => first ++ line ++ String.join (rest.map fun l => "\n" ++ next ++ l)

/-- The lines of the causes: a single one stands alone, several are counted from zero. -/
def causeLines : List String → List String
  | [cause] => [hang "    " "    " cause]
  | causes => causes.zipIdx.map fun (cause, i) => hang ("    " ++ toString i ++ ": ") "       " cause

/-- The text of a report. -/
def render (r : Report) : String :=
  let causes := if r.causes = [] then [] else "" :: "Caused by:" :: causeLines r.causes
  Text.unlines (("Error: " ++ r.text) :: causes)

end Report

end Unbundle.Command
