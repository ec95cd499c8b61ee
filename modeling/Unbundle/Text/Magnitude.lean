/-
  Unbundle.Text.Magnitude — decimal numbers too large for a 64-bit floating point number.

  Formats differ in how they round. `exceedsFloat` rounds the number as it is written, once. A `Scientific` keeps
  only the leading digits that fit into 64 bits, and its `isTooLarge` rounds three times: these digits, the power
  of ten, and their product. Close to the limit the two may disagree.
-/

namespace Unbundle.Text

/-- The least number that rounds to no finite 64-bit floating point number. -/
def floatLimit : Nat := Nat.pow 2 1024 - Nat.pow 2 970

/-- Whether the digits, times ten to the power `exponent`, reach `floatLimit`. A number of 309 digits needs a
    comparison; fewer digits are below the limit and more are above it. -/
def exceedsFloat (digits : List Nat) (exponent : Int) : Bool :=
  let significant := digits.dropWhile (· == 0)
  if significant.isEmpty then false
  else
    let places : Int := significant.length + exponent
    if places < 309 then false
    else if 309 < places then true
    else
      let n := significant.foldl (fun n d => 10 * n + d) 0
      if 0 ≤ exponent then floatLimit ≤ n * Nat.pow 10 exponent.toNat
      else floatLimit * Nat.pow 10 (-exponent).toNat ≤ n

/-! ## Rounding digit by digit -/

/-- The nearest number with 53 binary digits; of two that are equally near, the one that ends in 0. -/
def roundBinary (n : Nat) : Nat :=
  let unit := Nat.pow 2 (n.log2 - 52)
  let q := n / unit
  let r := n % unit
  if unit < 2 * r || (unit == 2 * r && q % 2 == 1) then (q + 1) * unit else q * unit

/-- Puts digits behind a number as long as the result fits into 64 bits, and gives the digits that are left. -/
def appendDigits : Nat → List Nat → Nat × List Nat
  | n, [] => (n, [])
  | n, d :: ds => if 10 * n + d < 2 ^ 64 then appendDigits (10 * n + d) ds else (n, d :: ds)

/-- A whole number of at most 64 bits, times a power of ten. -/
structure Scientific where
  significand : Nat
  exponent : Int

namespace Scientific

/-- The number with the given digits before and behind its point, times ten to the power `exponent`. The digits on
    each side that no longer fit are dropped, those before the point for a power of ten each. -/
def ofDigits (whole fraction : List Nat) (exponent : Int) : Scientific :=
  let (n, dropped) := appendDigits 0 whole
  let (n, unread) := appendDigits n fraction
  ⟨n, exponent + dropped.length - (fraction.length - unread.length : Nat)⟩

/-- Whether the number rounds to no finite 64-bit floating point number. -/
def isTooLarge (x : Scientific) : Bool :=
  x.significand != 0 && (308 < x.exponent ||
    (0 ≤ x.exponent && floatLimit ≤ roundBinary x.significand * roundBinary (Nat.pow 10 x.exponent.toNat)))

end Scientific

end Unbundle.Text
