/-
  Unbundle.Json — JSON texts.

  The strict format: no comments, no trailing commas, no byte order mark; escapes name whole characters, so a
  lone surrogate is refused; numbers too large for a 64-bit floating point number are refused; containers nest
  at most 127 deep.
-/

import Unbundle.Text.Digit
import Unbundle.Text.Hex
import Unbundle.Text.Magnitude
import Unbundle.Text.Reader

namespace Unbundle

/-- A JSON value. A number is kept as it is written. -/
inductive Json where
  | null
  | bool (b : Bool)
  | number (text : String)
  | string (s : String)
  | array (items : List Json)
  | object (members : List (String × Json))

namespace Json

open Text (Reader)
open Text.Reader

/-- How deep containers may nest. -/
def maxDepth : Nat := 127

/-- White space between tokens. -/
def isSpace (c : Char) : Bool := c == ' ' || c == '\t' || c == '\n' || c == '\r'

def spaces : Reader Unit := do
  let _ ← takeWhile isSpace

/-! ## Strings -/

/-- Four hexadecimal digits. -/
def unit : Reader Nat := do
  return Text.hexValue (← takeExactly 4 Text.isHexDigit)

/-- What stands behind the `u` of an escape: one character, or a surrogate pair in two escapes. -/
def unicodeEscape : Reader Char := do
  let high ← unit
  let code ← (do
    if 0xD800 ≤ high && high ≤ 0xDBFF then
      text "\\u"
      let low ← unit
      if 0xDC00 ≤ low && low ≤ 0xDFFF then return 0x10000 + (high - 0xD800) * 0x400 + (low - 0xDC00)
      else refuse
    else return high)
  match Text.charOf? code with
  | some c => return c
  | none => refuse

/-- What follows a backslash. -/
def escape : Reader Char := do
  match ← item with
  | '"' => return '"'
  | '\\' => return '\\'
  | '/' => return '/'
  | 'b' => return '\x08'
  | 'f' => return '\x0c'
  | 'n' => return '\n'
  | 'r' => return '\r'
  | 't' => return '\t'
  | 'u' => unicodeEscape
  | _ => refuse

/-- A string behind its opening quote. -/
def stringBody : Reader String :=
  loop (fun (taken : List Char) => do
    match ← item with
    | '"' => return .inr (String.ofList taken.reverse)
    | '\\' => return .inl ((← escape) :: taken)
    | c => if c.toNat < 0x20 then refuse else return .inl (c :: taken)) []

/-! ## Numbers -/

/-- At least one digit. -/
def digits : Reader (List Char) := do
  let ds ← takeWhile Char.isDigit
  if ds.isEmpty then refuse
  return ds

/-- The digits behind a point, if a point follows. -/
def fraction : Reader (List Char) := do
  if ← startsWith "." then digits else return []

/-- The exponent; 0 if none follows. -/
def exponent : Reader Int := do
  match ← peek? with
  | some 'e' | some 'E' =>
    let _ ← item
    let negative ← startsWith "-"
    if !negative then
      let _ ← startsWith "+"
    let ds ← digits
    let n : Int := Text.decimalValue ds
    return if negative then -n else n
  | _ => return 0

/-- A number without superfluous zeros in front. -/
def readNumber : Reader Json := do
  let before ← left
  let _ ← startsWith "-"
  let whole ← digits
  if whole.head? == some '0' && 1 < whole.length then refuse
  let part ← fraction
  let power ← exponent
  let after ← left
  let values := fun (ds : List Char) => ds.map fun d => d.toNat - '0'.toNat
  if (Text.Scientific.ofDigits (values whole) (values part) power).isTooLarge then refuse
  return .number (String.ofList (before.take (before.length - after.length)))

/-! ## Values -/

/-- A value that is no container. -/
def scalar : Reader Json := do
  if ← startsWith "null" then return .null
  else if ← startsWith "true" then return .bool true
  else if ← startsWith "false" then return .bool false
  else if ← startsWith "\"" then return .string (← stringBody)
  else readNumber

/-- A value; containers are left to `container`. -/
def value (container : Unit → Reader Json) : Reader Json := do
  match ← peek? with
  | some '[' | some '{' => container ()
  | _ => scalar

/-- A member of an object. -/
def member (container : Unit → Reader Json) : Reader (String × Json) := do
  char '"'
  let name ← stringBody
  spaces
  char ':'
  spaces
  return (name, ← value container)

/-- One or more parts with commas between them, up to the closing bracket. -/
def parts {α : Type} (part : Reader α) (close : Char) : Reader (List α) :=
  loop (fun (taken : List α) => do
    let a ← part
    spaces
    let c ← item
    if c == close then return .inr (a :: taken).reverse
    else if c == ',' then
      spaces
      return .inl (a :: taken)
    else refuse) []

/-- An array or an object; `self` reads the containers inside. -/
def containerWith (self : Unit → Reader Json) (_ : Unit) : Reader Json := do
  let c ← item
  spaces
  if c == '[' then
    if ← startsWith "]" then return .array []
    return .array (← parts (value self) ']')
  else if c == '{' then
    if ← startsWith "\x7d" then return .object []
    return .object (← parts (member self) '}')
  else refuse

/-- An array or an object, nested at most `maxDepth` deep. -/
def container : Unit → Reader Json := levels containerWith maxDepth

/-- The members of the object that a text holds. -/
def readObject? (s : String) : Option (List (String × Json)) :=
  let whole : Reader Json := do
    spaces
    let v ← value container
    spaces
    return v
  match readAll whole s.toList with
  | some (.object members) => some members
  | _ => none

/-- The value of a name; of a repeated name the last value counts. -/
def get? (members : List (String × Json)) (name : String) : Option Json :=
  (members.reverse.find? (·.1 == name)).map Prod.snd

def isTrue : Json → Bool
  | bool b => b
  | _ => false

end Json

end Unbundle
