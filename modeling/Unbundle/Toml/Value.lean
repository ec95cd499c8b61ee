/-
  Unbundle.Toml.Value — values of TOML documents, and how tables grow.

  A table remembers how it came to be, since that decides who may still add to it: a header claims a table that
  only longer headers have named, dotted keys add to tables made by dotted keys, and nobody adds to a table in
  braces.
-/

namespace Unbundle.Toml

/-- How a table came to be. -/
inductive Origin where
  /-- Named by a header of its own. -/
  | header
  /-- Named on the way to another table, by its header. -/
  | implied
  /-- Named on the way to a key. -/
  | dotted
  /-- Written in braces. -/
  | braces
  deriving DecidableEq, Repr

/-- Whether dotted keys may run through a table. -/
def Origin.isOpen : Origin → Bool
  | implied | dotted => true
  | header | braces => false

/-- A value. Numbers and dates are only told apart, not kept. -/
inductive Value where
  | string (s : String)
  | bool (b : Bool)
  | number
  | date
  | array (items : List Value)
  | table (origin : Origin) (members : List (String × Value))
  /-- A table for each header in double brackets, the last one first. -/
  | tables (items : List (List (String × Value)))

/-- The members of a table, in order of their first appearance. -/
abbrev Members := List (String × Value)

namespace Members

def get? (m : Members) (key : String) : Option Value := (m.find? (·.1 == key)).map Prod.snd

/-- The members with a value set for a key. -/
def set (m : Members) (key : String) (v : Value) : Members :=
  if m.any (·.1 == key) then m.map fun p => if p.1 == key then (key, v) else p else m ++ [(key, v)]

/-- The members with a new key; refused if the key is there. -/
def insertNew? (m : Members) (key : String) (v : Value) : Option Members :=
  if (m.get? key).isSome then none else some (m ++ [(key, v)])

/-- The members with a value behind a dotted key. The tables on the way must be open, and the last of them must
    be made of dotted keys only. -/
def insertDotted? (m : Members) : List String → String → Value → Option Members
  | [], key, v => m.insertNew? key v
  | part :: path, key, v =>
    match (m.get? part).getD (.table .dotted []) with
    | .table origin inner =>
      if origin.isOpen && (!path.isEmpty || origin == .dotted) then
        (insertDotted? inner path key v).map fun inner => m.set part (.table origin inner)
      else none
    | .tables (inner :: others) =>
      if path.isEmpty then none
      else (insertDotted? inner path key v).map fun inner => m.set part (.tables (inner :: others))
    | _ => none

/-- A change to the table at the end of a path of headers; tables on the way are made as needed. -/
def changeAt? (f : Members → Option Members) (m : Members) : List String → Option Members
  | [] => f m
  | part :: path =>
    match (m.get? part).getD (.table .implied []) with
    | .table .braces _ => none
    | .table origin inner => (changeAt? f inner path).map fun inner => m.set part (.table origin inner)
    | .tables (inner :: others) =>
      (changeAt? f inner path).map fun inner => m.set part (.tables (inner :: others))
    | _ => none

/-- The table with a table opened by its own header: a new one, or one that was only named on the way to
    others. -/
def openTable? (m : Members) (key : String) : Option Members :=
  match m.get? key with
  | none => some (m.set key (.table .header []))
  | some (.table .implied inner) => some (m.set key (.table .header inner))
  | _ => none

/-- The table with one more table opened by a header in double brackets. -/
def openElement? (m : Members) (key : String) : Option Members :=
  match m.get? key with
  | none => some (m.set key (.tables [[]]))
  | some (.tables items) => some (m.set key (.tables ([] :: items)))
  | _ => none

end Members

end Unbundle.Toml
