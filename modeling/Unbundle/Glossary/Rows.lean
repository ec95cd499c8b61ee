/-
  Unbundle.Glossary.Rows — the rows of a glossary in a file.

  Every line is a row, and a tab ends a column. The first line is a heading. A row that cannot be used is reported and
  passed over. A line that is not UTF-8 ends the reading; the rows before it have been read by then.
-/

import Unbundle.Glossary.Draft
import Unbundle.Text.Lines

namespace Unbundle.Draft

/-- The columns of a row. -/
def columns (line : String) : List String := (Text.cutAt '\t' line.toList).map String.ofList

/-- The draft with the rows of numbered lines. -/
def readLines (d : Draft) : Nat → List (List UInt8) → Logged (Draft × Option Failure)
  | _, [] => return (d, none)
  | number, bytes :: rest =>
    match Text.ofBytes? bytes with
    | none => return (d, some (.stream .notText))
    | some line =>
      if number = 1 then do
        Logged.report (.headerRow line)
        d.readLines 2 rest
      else
        match d.push number (columns line) with
        | (d, none) => d.readLines (number + 1) rest
        | (d, some failure) =>
          if failure.isRecoverable then do
            Logged.report (.rowIgnored failure)
            d.readLines (number + 1) rest
          else return (d, some failure)

/-- The draft with the rows of a file. -/
def readBytes (d : Draft) (bytes : List UInt8) : Logged (Draft × Option Failure) :=
  d.readLines 1 (Text.cutByteLines bytes)

/-- No row ends the reading. -/
theorem isRecoverable_of_push {d : Draft} {number : Nat} {row : List String} {failure : Failure}
    (h : (d.push number row).2 = some failure) : failure.isRecoverable = true := by
  unfold push at h
  split at h
  · cases h
  · cases h
    rfl

/-- Behind the heading every line that is a text is pushed, whether or not it can be used. -/
theorem readLines_cons (d : Draft) {number : Nat} {bytes : List UInt8} {line : String}
    (hText : Text.ofBytes? bytes = some line) (hNumber : number ≠ 1) (rest : List (List UInt8)) :
    d.readLines number (bytes :: rest) = (do
      Logged.reportAll ((d.push number (columns line)).2.toList.map Event.rowIgnored)
      (d.push number (columns line)).1.readLines (number + 1) rest) := by
  rw [readLines, hText]
  simp only [if_neg hNumber]
  rcases hPush : d.push number (columns line) with ⟨d', _ | failure⟩
  · rfl
  · simp only [if_pos (isRecoverable_of_push (congrArg Prod.snd hPush))]
    rfl

end Unbundle.Draft
