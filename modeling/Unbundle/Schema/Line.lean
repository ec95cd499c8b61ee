/-
  Unbundle.Schema.Line — what a single line means to a scan.

  A line is judged by its text without the blanks at its ends; besides that only one thing counts, whether a
  block has been opened before it. There is no grammar of fields: the first word of a line, and for labels and
  maps the word behind it, tell which type the line names.
-/

import Unbundle.Text.Blank
import Unbundle.Text.Digit
import Unbundle.Text.Identifier
import Unbundle.Vocabulary

namespace Unbundle

/-- What a line means to a scan. -/
inductive LineKind where
  /-- A line of the shared header. -/
  | header
  /-- A line that announces the command id of the next block. -/
  | commandId (id : UInt32)
  /-- A nesting word with a name. -/
  | opener (name : String)
  /-- A nesting word without a name: it opens nothing. -/
  | nameless
  /-- The end of a nesting level. -/
  | closing
  /-- Any other line, with the type it names. -/
  | plain (reference? : Option String)
  deriving DecidableEq, Repr

namespace LineKind

open Text

/-- What follows `start` in a text that starts with it. -/
def after? : List Char → List Char → Option (List Char)
  | [], cs => some cs
  | _ :: _, [] => none
  | s :: start, c :: cs => if s = c then after? start cs else none

/-- What follows `start` in a text that starts with it and a space; the space is kept. -/
def afterSpaced? (start cs : List Char) : Option (List Char) :=
  match after? start cs with
  | some (' ' :: rest) => some (' ' :: rest)
  | _ => none

/-! ## Command ids -/

/-- The command id a text starts with: blanks are skipped, then ASCII digits are read. Without digits, and if
    the number takes more than 32 bits, the id is 0. -/
def readCommandId (cs : List Char) : UInt32 :=
  let n := decimalValue ((trimStart cs).takeWhile Char.isDigit)
  if n < Nat.pow 2 32 then UInt32.ofNat n else 0

/-- The command id that a line announces: the marker, a space, the id. -/
def commandId? (marker : String) (t : List Char) : Option UInt32 :=
  (afterSpaced? marker.toList t).map readCommandId

/-! ## Nesting -/

/-- What follows the first word of the list that the text starts with, a space behind it. -/
def afterNestingWord? (words : List String) (t : List Char) : Option (List Char) :=
  words.findSome? fun word => afterSpaced? word.toList t

/-! ## Named types -/

/-- An enum value: an identifier, an equals sign, digits and a semicolon. -/
def isEnumValue (t : List Char) : Bool :=
  match takeIdentifier? t with
  | none => false
  | some (_, rest) =>
    match trimStart rest with
    | '=' :: rest =>
      let rest := trimStart rest
      let behind := rest.dropWhile isDigit
      !(rest.takeWhile isDigit).isEmpty && (trimStart behind).head? == some ';'
    | _ => false

/-- The second word of a line whose first word is a label. -/
def labeled? (t : List Char) : Option (List Char) := do
  let (_, rest) ← takeIdentifier? t
  if (rest.head?.map isBlank).getD false then
    let (name, _) ← takeIdentifier? (trimStart rest)
    return name
  else none

/-- The value type of a map type that the text starts with. -/
def mapValueAtStart? (cs : List Char) : Option (List Char) := do
  let rest ← after? "map<".toList cs
  let (_, rest) ← takeIdentifier? (trimStart rest)
  let rest ← after? [','] (trimStart rest)
  let (value, rest) ← takeIdentifier? (trimStart rest)
  let _ ← after? ['>'] (trimStart rest)
  return value

/-- The value type of the first map type in a text. -/
def mapValue? : List Char → Option (List Char)
  | [] => none
  | c :: cs => (mapValueAtStart? (c :: cs)).or (mapValue? cs)

/-- The type that a line names. -/
def reference? (v : Vocabulary) (t : List Char) : Option String :=
  match takeIdentifier? t with
  | none => none
  | some (word, _) =>
    if isEnumValue t then none
    else
      let isCustom := fun name => v.classify name == .custom
      match v.classify (String.ofList word) with
      | .custom => some (String.ofList word)
      | .label => ((labeled? t).map String.ofList).filter isCustom
      | .map => ((mapValue? t).map String.ofList).filter isCustom
      | .nesting | .scalar | .directive | .suppressed => none

/-! ## The kind of a line -/

/-- The kind of a line; `inBlock` tells whether a block has been opened before it. -/
def of (v : Vocabulary) (inBlock : Bool) (line : String) : LineKind :=
  let t := trim line.toList
  if !inBlock && v.headers.any (fun start => start.toList.isPrefixOf t) then .header
  else
    match commandId? v.marker t with
    | some id => .commandId id
    | none =>
      match afterNestingWord? v.nesting t with
      | some rest =>
        match takeIdentifier? (trimStart rest) with
        | some (name, _) => .opener (String.ofList name)
        | none => .nameless
      | none => if t = ['}'] then .closing else .plain (reference? v t)

end LineKind

end Unbundle
