/-
  Unbundle.Toml.Reading — TOML documents as text.

  Version 1.0 of the format, without leniency: a key is given once, a table is claimed once, inline tables stand
  on one line without a trailing comma, carriage returns stand only before line feeds, whole numbers fit into 64
  bits. Arrays and inline tables nest at most 79 deep, and a dotted key has at most 79 parts.
-/

import Unbundle.Text.Digit
import Unbundle.Text.Hex
import Unbundle.Text.Lines
import Unbundle.Text.Magnitude
import Unbundle.Text.Reader
import Unbundle.Toml.Value

namespace Unbundle.Toml

open Text (Reader)
open Text.Reader

/-- How deep values may nest, and how many parts a key may have. -/
def maxDepth : Nat := 79

/-! ## White space and comments -/

def isSpace (c : Char) : Bool := c == ' ' || c == '\t'

def spaces : Reader Unit := do
  let _ ← takeWhile isSpace

/-- The characters of comments and literal strings: everything but controls, tabs excepted. -/
def isPrintable (c : Char) : Bool := c == '\t' || (0x20 ≤ c.toNat && c.toNat != 0x7F)

/-- A line end, if one follows. -/
def lineEnd : Reader Bool := do
  if ← startsWith "\n" then return true else startsWith "\r\n"

/-- A comment, if one follows. -/
def comment : Reader Unit := do
  if ← startsWith "#" then
    let _ ← takeWhile isPrintable

/-- Blanks, comments and line ends. -/
def gap : Reader Unit :=
  loop (fun (_ : Unit) => do
    spaces
    comment
    if ← lineEnd then return .inl () else return .inr ()) ()

/-! ## Strings -/

/-- A character with a number of so many hexadecimal digits. -/
def hexCharacter (n : Nat) : Reader Char := do
  match Text.charOf? (Text.hexValue (← takeExactly n Text.isHexDigit)) with
  | some c => return c
  | none => refuse

/-- What follows a backslash. -/
def escape : Reader Char := do
  match ← item with
  | 'b' => return '\x08'
  | 't' => return '\t'
  | 'n' => return '\n'
  | 'f' => return '\x0c'
  | 'r' => return '\r'
  | '"' => return '"'
  | '\\' => return '\\'
  | 'u' => hexCharacter 4
  | 'U' => hexCharacter 8
  | _ => refuse

/-- A string in double quotes, behind the opening one. -/
def basicBody : Reader String :=
  loop (fun (taken : List Char) => do
    match ← item with
    | '"' => return .inr (String.ofList taken.reverse)
    | '\\' => return .inl ((← escape) :: taken)
    | c => if isPrintable c then return .inl (c :: taken) else refuse) []

/-- A string in single quotes, behind the opening one. -/
def literalBody : Reader String := do
  let cs ← takeWhile fun c => isPrintable c && c != '\''
  char '\''
  return String.ofList cs

/-- The end of a line inside a string that a backslash hides, with all blanks and line ends behind it. -/
def hiddenLineEnd : Reader Bool := do
  let before ← left
  spaces
  if ← lineEnd then
    loop (fun (_ : Unit) => do
      spaces
      if ← lineEnd then return .inl () else return .inr ()) ()
    return true
  else
    set before
    return false

/-- A string over several lines, behind the quotes that open it. The line end right behind them is left out,
    every other one counts as a line feed, and up to two quotes may stand before the quotes that close it. -/
def multilineBody (quote : Char) (escapes : Bool) : Reader String := do
  let _ ← lineEnd
  let close := String.ofList [quote, quote, quote]
  loop (fun (taken : List Char) => do
    if ← startsWith close then
      let more ← takeWhile (· == quote)
      if 2 < more.length then refuse
      return .inr (String.ofList (more ++ taken).reverse)
    else if ← lineEnd then return .inl ('\n' :: taken)
    else
      let c ← item
      if c == '\\' && escapes then
        if ← hiddenLineEnd then return .inl taken
        return .inl ((← escape) :: taken)
      else if isPrintable c then return .inl (c :: taken)
      else refuse) []

/-- A string of any of the four kinds. -/
def readString : Reader String := do
  if ← startsWith "\"\"\"" then multilineBody '"' true
  else if ← startsWith "\"" then basicBody
  else if ← startsWith "'''" then multilineBody '\'' false
  else
    char '\''
    literalBody

/-! ## Keys -/

def isBareKeyChar (c : Char) : Bool := c.isAlphanum || c == '_' || c == '-'

/-- A key without dots. -/
def simpleKey : Reader String := do
  if ← startsWith "\"" then basicBody
  else if ← startsWith "'" then literalBody
  else
    let cs ← takeWhile isBareKeyChar
    if cs.isEmpty then refuse
    return String.ofList cs

/-- A key: the parts on the way, and the last part. -/
def key : Reader (List String × String) :=
  loop (fun (path : List String) => do
    let part ← simpleKey
    let rest ← left
    spaces
    if ← startsWith "." then
      spaces
      return .inl (part :: path)
    else
      set rest
      if maxDepth ≤ path.length then refuse
      return .inr (path.reverse, part)) []

/-! ## Numbers and dates -/

/-- Digits, with single underscores between them. -/
def digitRun (p : Char → Bool) : Reader (List Char) := do
  let cs ← takeWhile fun c => p c || c == '_'
  let runs := (Text.cutAt '_' cs)
  if runs.any List.isEmpty then refuse
  return runs.flatten

/-- Digits of a whole number in decimal: no zeros in front. -/
def wholeDigits : Reader (List Char) := do
  let ds ← digitRun Char.isDigit
  if ds.head? == some '0' && 1 < ds.length then refuse
  return ds

/-- A sign, if one follows. -/
def sign? : Reader (Option Char) := do
  if ← startsWith "+" then return some '+'
  else if ← startsWith "-" then return some '-'
  else return none

/-- A whole number in base 16, 8 or 2, behind its base mark. -/
def based (base : Nat) (p : Char → Bool) : Reader Value := do
  let ds ← digitRun p
  if ds.foldl (fun n d => base * n + (Text.hexDigit? d).getD 0) 0 < Nat.pow 2 63 then return .number else refuse

/-- The exponent of a number, if one follows. -/
def exponent? : Reader (Option Int) := do
  match ← peek? with
  | some 'e' | some 'E' =>
    let _ ← item
    let sign ← sign?
    let n : Int := Text.decimalValue (← digitRun Char.isDigit)
    return some (if sign == some '-' then -n else n)
  | _ => return none

/-- A decimal number: whole numbers fit into 64 bits with their sign, others are below the limit of floating
    point numbers unless they are negative. -/
def decimal : Reader Value := do
  let sign ← sign?
  if (← startsWith "inf") then return .number
  else if (← startsWith "nan") then return .number
  else
    let whole ← wholeDigits
    let fraction? ← (do
      if ← startsWith "." then return some (← digitRun Char.isDigit) else return none)
    let power? ← exponent?
    if fraction?.isNone && power?.isNone then
      let n := Text.decimalValue whole
      if n < Nat.pow 2 63 || (sign == some '-' && n == Nat.pow 2 63) then return .number else refuse
    else
      let fraction := fraction?.getD []
      let digits := (whole ++ fraction).map fun d => d.toNat - '0'.toNat
      if sign != some '-' && Text.exceedsFloat digits (power?.getD 0 - fraction.length) then refuse
      return .number

/-- A number of exactly so many digits, between two bounds. -/
def field (digits least most : Nat) : Reader Nat := do
  let n := Text.decimalValue (← takeExactly digits Char.isDigit)
  if least ≤ n && n ≤ most then return n else refuse

def daysIn (year month : Nat) : Nat :=
  if month == 2 then (if year % 4 == 0 && (year % 100 != 0 || year % 400 == 0) then 29 else 28)
  else if month == 4 || month == 6 || month == 9 || month == 11 then 30
  else 31

def dateFields : Reader Unit := do
  let year ← field 4 0 9999
  char '-'
  let month ← field 2 1 12
  char '-'
  let _ ← field 2 1 (daysIn year month)

def timeFields : Reader Unit := do
  let _ ← field 2 0 23
  char ':'
  let _ ← field 2 0 59
  char ':'
  let _ ← field 2 0 60
  if ← startsWith "." then
    let ds ← takeWhile Char.isDigit
    if ds.isEmpty then refuse

/-- The distance of a time from universal time, if one follows. -/
def offset : Reader Unit := do
  match ← peek? with
  | some 'Z' | some 'z' =>
    let _ ← item
  | some '+' | some '-' =>
    let _ ← item
    let _ ← field 2 0 23
    char ':'
    let _ ← field 2 0 59
  | _ => return ()

/-- A time behind a date, if one follows. -/
def timeBehindDate : Reader Unit := do
  let rest ← left
  match rest with
  | c :: d :: _ =>
    if (c == 'T' || c == 't' || c == ' ') && d.isDigit then
      let _ ← item
      timeFields
      offset
  | _ => return ()

/-- A date, a time, or both; which of them it is shows behind the first digits. -/
def date : Reader Value := do
  let rest ← left
  match (rest.dropWhile Char.isDigit).head? with
  | some '-' =>
    dateFields
    timeBehindDate
  | _ => timeFields
  return .date

/-- Whether a text starts like a date or a time. -/
def startsLikeDate (cs : List Char) : Bool :=
  let ds := cs.takeWhile Char.isDigit
  match cs.dropWhile Char.isDigit with
  | '-' :: _ => ds.length == 4
  | ':' :: _ => ds.length == 2
  | _ => false

/-- A number or a date. -/
def numberOrDate : Reader Value := do
  if startsLikeDate (← left) then date
  else if ← startsWith "0x" then based 16 Text.isHexDigit
  else if ← startsWith "0o" then based 8 fun c => '0' ≤ c && c ≤ '7'
  else if ← startsWith "0b" then based 2 fun c => c == '0' || c == '1'
  else decimal

/-! ## Values -/

/-- A value that is no container. -/
def scalar : Reader Value := do
  match ← peek? with
  | some '"' | some '\'' => return .string (← readString)
  | some 't' =>
    text "true"
    return .bool true
  | some 'f' =>
    text "false"
    return .bool false
  | _ => numberOrDate

/-- A value; containers are left to `container`. -/
def value (container : Unit → Reader Value) : Reader Value := do
  match ← peek? with
  | some '[' | some '{' => container ()
  | _ => scalar

/-- The values of an array, behind its bracket. -/
def arrayBody (container : Unit → Reader Value) : Reader (List Value) :=
  loop (fun (taken : List Value) => do
    gap
    if ← startsWith "]" then return .inr taken.reverse
    let v ← value container
    gap
    if ← startsWith "," then return .inl (v :: taken)
    else
      char ']'
      return .inr (v :: taken).reverse) []

/-- A key with its value, added to the members read before. -/
def keyValue (container : Unit → Reader Value) (m : Members) : Reader Members := do
  let (path, last) ← key
  spaces
  char '='
  spaces
  let v ← value container
  match m.insertDotted? path last v with
  | some m => return m
  | none => refuse

/-- The members of an inline table, behind its brace. -/
def inlineBody (container : Unit → Reader Value) : Reader Members := do
  spaces
  if ← startsWith "\x7d" then return []
  loop (fun (m : Members) => do
    spaces
    let m ← keyValue container m
    spaces
    if ← startsWith "," then return .inl m
    else
      char '}'
      return .inr m) []

/-- An array or an inline table; `self` reads the containers inside. -/
def containerWith (self : Unit → Reader Value) (_ : Unit) : Reader Value := do
  if ← startsWith "[" then return .array (← arrayBody self)
  else
    char '{'
    return .table .braces (← inlineBody self)

/-- An array or an inline table, nested at most `maxDepth` deep. -/
def container : Unit → Reader Value := levels containerWith maxDepth

/-! ## Documents -/

/-- A document read so far: its members, and the table that the last header opened. -/
structure DocumentState where
  root : Members
  /-- The names on the way to the open table. -/
  current : List String

/-- A header behind its first bracket. -/
def header (state : DocumentState) : Reader DocumentState := do
  let isElement ← startsWith "["
  spaces
  let (path, last) ← key
  spaces
  char ']'
  if isElement then char ']'
  let openIt := fun m => if isElement then Members.openElement? m last else Members.openTable? m last
  match Members.changeAt? openIt state.root path with
  | some root => return ⟨root, path ++ [last]⟩
  | none => refuse

/-- A key with its value in the open table. -/
def assignment (state : DocumentState) : Reader DocumentState := do
  let (path, last) ← key
  spaces
  char '='
  spaces
  let v ← value container
  match Members.changeAt? (fun m => m.insertDotted? path last v) state.root state.current with
  | some root => return { state with root }
  | none => refuse

/-- One line of a document. -/
def documentLine (state : DocumentState) : Reader (DocumentState ⊕ Members) := do
  spaces
  let state ← (do
    match ← peek? with
    | none | some '#' | some '\n' | some '\r' => return state
    | some '[' =>
      char '['
      header state
    | some _ => assignment state)
  spaces
  comment
  if ← lineEnd then return .inl state
  else
    atEnd
    return .inr state.root

/-- The members of the document that a text holds; a byte order mark may stand in front. -/
def readDocument? (s : String) : Option Members :=
  let whole : Reader Members := do
    let _ ← startsWith "\ufeff"
    loop documentLine ⟨[], []⟩
  readAll whole s.toList

end Unbundle.Toml
