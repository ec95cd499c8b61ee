/-
  Unbundle.Glossary.Draft — a glossary made from rows.

  A draft collects rows: an obfuscated name, a clear name, and columns nobody reads. The finished glossary
  keeps a name only if all its rows give it the same clear name. Spaces inside names are removed, since the
  schema has none; if several names come to the same text, they too must agree, or the text is left out.
-/

import Unbundle.Glossary.Basic

namespace Unbundle

/-- What the rows of one name say. -/
structure Usage where
  /-- The clear name of the first row. -/
  value : String
  occurrences : Nat
  /-- Whether every later row gave the same clear name. -/
  agreed : Bool
  deriving DecidableEq, Repr

/-- Another row of the same name. -/
def Usage.again (u : Usage) (value : String) : Usage :=
  { u with occurrences := u.occurrences + 1, agreed := u.agreed && u.value == value }

/-- Rows collected so far. -/
structure Draft where
  names : Std.ExtTreeMap String Usage
  records : Nat
  malformed : Nat

namespace Draft

/-- The draft without rows. -/
def empty : Draft := ⟨∅, 0, 0⟩

/-- The name and the clear name in the columns of a row; if one of them is missing or empty, the number of
    columns that can be used. -/
def readRow : List String → Except Nat (String × String)
  | [] => .error 0
  | [key] => .error (if key = "" then 0 else 1)
  | key :: value :: _ => if key = "" then .error 0 else if value = "" then .error 1 else .ok (key, value)

/-- The draft with a usable row. -/
def record (d : Draft) (key value : String) : Draft :=
  { d with
    names := d.names.alter key fun
      | none => some ⟨value, 1, true⟩
      | some u => some (u.again value)
    records := d.records + 1 }

/-- The draft with one more row, and the failure if the row cannot be used. -/
def push (d : Draft) (line : Nat) (columns : List String) : Draft × Option Failure :=
  match readRow columns with
  | .ok (key, value) => (d.record key value, none)
  | .error usable => ({ d with malformed := d.malformed + 1 }, some (.malformedRow line usable))

/-- The draft with numbered rows; rows that cannot be used are reported. -/
def pushAll (d : Draft) : Nat → List (List String) → Logged Draft
  | _, [] => return d
  | line, columns :: rest => do
    let (d, failure?) := d.push line columns
    Logged.reportAll (failure?.toList.map Event.rowIgnored)
    d.pushAll (line + 1) rest

/-! ## Finishing -/

/-- A name without its spaces. -/
def collapse (key : String) : String := String.ofList (key.toList.filter (· ≠ ' '))

/-- A glossary on the way from a draft. -/
structure Admission where
  entries : Std.ExtTreeMap String String
  /-- Texts at which names with different clear names came together. -/
  clashes : List String
  inconsistent : Nat
  normalized : Nat

/-- The glossary on the way with a clear name for a text without spaces. The empty text gets none. -/
def Admission.bring (a : Admission) (text value : String) : Logged Admission :=
  if text = "" then return a
  else
    match a.entries[text]? with
    | none => return { a with entries := a.entries.insert text value }
    | some known =>
      if known = value then return a
      else do
        Logged.report (.collapsedClash text)
        return { a with clashes := a.clashes ++ [text] }

/-- The glossary on the way with the next name of the draft. -/
def Admission.consider (a : Admission) (key : String) (u : Usage) : Logged Admission :=
  if u.agreed then do
    let spaced := ' ' ∈ key.toList
    if 1 < u.occurrences then Logged.report (.nameRepeated key u.occurrences)
    if spaced then Logged.report (.spacesRemoved key (collapse key))
    { a with normalized := a.normalized + if spaced then 1 else 0 }.bring (collapse key) u.value
  else do
    Logged.report (.nameDropped key u.occurrences)
    return { a with inconsistent := a.inconsistent + 1 }

/-- The glossary on the way with names of the draft, in order. -/
def Admission.considerAll (a : Admission) : List (String × Usage) → Logged Admission
  | [] => return a
  | (key, u) :: rest => do (← a.consider key u).considerAll rest

/-- The glossary on the way with a text taken out, which counts if the text was still there. -/
def Admission.takeOut (a : Admission) (text : String) : Admission :=
  match a.entries[text]? with
  | none => a
  | some _ => { a with entries := a.entries.erase text, inconsistent := a.inconsistent + 1 }

/-- The glossary of a draft. Texts that clashed several times are taken out once. -/
def finish (d : Draft) : Logged Glossary := do
  let considered ← Admission.considerAll ⟨∅, [], 0, 0⟩ d.names.toList
  let a := considered.clashes.foldl Admission.takeOut considered
  Logged.report (.glossaryReady a.entries.size a.inconsistent d.malformed)
  return ⟨a.entries, ⟨d.records, d.malformed, a.inconsistent, a.normalized⟩⟩

end Draft

/-- The glossary of a list of names and clear names, numbered from one. -/
def Glossary.ofPairs (pairs : List (String × String)) : Logged Glossary := do
  (← Draft.empty.pushAll 1 (pairs.map fun p => [p.1, p.2])).finish

end Unbundle
