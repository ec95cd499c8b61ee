/-
  Unbundle.Text.Visible — lines that cannot command the terminal they are shown on.

  A terminal acts on the bell, backspace, form feed, escape and delete, and on the controls from U+0080 to
  U+009F. In a visible text they are written as escapes, and every other character stands for itself.
-/

import Unbundle.Text.Hex

namespace Unbundle.Text

/-- A control character that a terminal acts on. -/
def isCommand (c : Char) : Bool :=
  c == '\x07' || c == '\x08' || c == '\x0c' || c == '\x1b' || c == '\x7f' || (0x80 ≤ c.toNat && c.toNat ≤ 0x9F)

/-- The escape for a control character: two hexadecimal digits, or its number between braces past ASCII. -/
def escaped (c : Char) : List Char :=
  let digits := Nat.toDigits 16 c.toNat
  if c.toNat < 0x10 then '\\' :: 'x' :: '0' :: digits
  else if c.toNat < 0x80 then '\\' :: 'x' :: digits
  else '\\' :: 'u' :: '{' :: digits ++ ['}']

def visibleChars (cs : List Char) : List Char := cs.flatMap fun c => if isCommand c then escaped c else [c]

/-- A text with escapes for all characters that a terminal acts on. -/
def visible (s : String) : String := String.ofList (visibleChars s.toList)

end Unbundle.Text
