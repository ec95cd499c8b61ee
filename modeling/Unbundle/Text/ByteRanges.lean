/-
  Unbundle.Text.ByteRanges — ranges of code points as sequences of byte ranges in UTF-8.

  A sequence of byte ranges stands for all characters whose bytes lie in these ranges, one after the other. A
  range of code points needs several sequences where its characters differ in length, or where it begins or
  ends in the midst of the characters that share all bytes but the last ones.
-/

import Unbundle.Text.Ranges

namespace Unbundle.Text

/-- The bytes from a first to a last one. -/
abbrev ByteRange := Nat × Nat

/-- The sequences for the numbers from `first` to `last`, written with `k` continuation bytes behind a byte that
    is counted from `lead` on. A continuation byte holds a digit to base 64. -/
def byteSequencesFrom (lead : Nat) : Nat → Nat → Nat → List (List ByteRange)
  | 0, first, last => [[(lead + first, lead + last)]]
  | k + 1, first, last =>
    let unit := 64 ^ (k + 1)
    let behind := fun d a b => (byteSequencesFrom 0x80 k a b).map ((lead + d, lead + d) :: ·)
    if first / unit = last / unit then behind (first / unit) (first % unit) (last % unit)
    else
      let start := if first % unit = 0 then first / unit else first / unit + 1
      let stop := if last % unit = unit - 1 then last / unit + 1 else last / unit
      let low := if first % unit = 0 then [] else behind (first / unit) (first % unit) (unit - 1)
      let high := if last % unit = unit - 1 then [] else behind (last / unit) 0 (last % unit)
      let middle :=
        if start < stop then [(lead + start, lead + stop - 1) :: List.replicate (k + 1) (0x80, 0xBF)] else []
      low ++ middle ++ high

/-- The characters with so many continuation bytes: the first and the last code point, and where the first byte
    is counted from. Surrogates are no characters. -/
def byteForms : List (Nat × Nat × Nat × Nat) := [
  (0, 0, 0x7F, 0), (1, 0x80, 0x7FF, 0xC0), (2, 0x800, 0xD7FF, 0xE0), (2, 0xE000, 0xFFFF, 0xE0),
  (3, 0x10000, 0x10FFFF, 0xF0)]

/-- The sequences for the characters from `first` to `last`, in increasing order. -/
def byteSequences (first last : Nat) : List (List ByteRange) :=
  byteForms.flatMap fun (k, least, most, lead) =>
    let a := max first least
    let b := min last most
    if a ≤ b then byteSequencesFrom lead k a b else []

example : byteSequences 0xE9 0x20AC =
    [[(0xC3, 0xC3), (0xA9, 0xBF)], [(0xC4, 0xDF), (0x80, 0xBF)], [(0xE0, 0xE0), (0xA0, 0xBF), (0x80, 0xBF)],
      [(0xE1, 0xE1), (0x80, 0xBF), (0x80, 0xBF)], [(0xE2, 0xE2), (0x80, 0x81), (0x80, 0xBF)],
      [(0xE2, 0xE2), (0x82, 0x82), (0x80, 0xAC)]] := by decide

/-! ## Sequences as a tree -/

/-- The sequences that go on, by their first range. Neighbours that start with the same range share a branch. -/
def branches : List (List ByteRange) → List (ByteRange × List (List ByteRange))
  | [] => []
  | [] :: rest => branches rest
  | (r :: s) :: rest =>
    match branches rest with
    | [] => [(r, [s])]
    | (q, ts) :: others => if r = q then (r, s :: ts) :: others else (r, [s]) :: (q, ts) :: others

end Unbundle.Text
