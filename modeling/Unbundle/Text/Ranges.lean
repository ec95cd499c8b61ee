/-
  Unbundle.Text.Ranges — sets of code points as lists of ranges, each with its first and its last member.

  Lists are kept in increasing order. Where ranges also neither overlap nor touch, a set has one list only.
-/

namespace Unbundle.Text

/-- Whether a code point lies in one of the ranges, which are given in increasing order. -/
def inRanges (n : Nat) : List (Nat × Nat) → Bool
  | [] => false
  | (first, last) :: rest => if n < first then false else n ≤ last || inRanges n rest

namespace Ranges

/-- The last code point. -/
def lastCodePoint : Nat := 0x10FFFF

/-- Puts a range in front of the first one that starts no earlier. -/
def insert (r : Nat × Nat) : List (Nat × Nat) → List (Nat × Nat)
  | [] => [r]
  | s :: rest => if r.1 ≤ s.1 then r :: s :: rest else s :: insert r rest

/-- The range from `first` to `last` and the ranges behind it, joined where they overlap or touch. -/
def joinFrom (first last : Nat) : List (Nat × Nat) → List (Nat × Nat)
  | [] => [(first, last)]
  | (a, b) :: rest => if a ≤ last + 1 then joinFrom first (max last b) rest else (first, last) :: joinFrom a b rest

/-- Ranges in any order, put in order and joined where they overlap or touch. -/
def normal (rs : List (Nat × Nat)) : List (Nat × Nat) :=
  match rs.foldr insert [] with
  | [] => []
  | (a, b) :: rest => joinFrom a b rest

/-- The gaps between ranges, from the code point `n` on. -/
def gapsFrom (n : Nat) : List (Nat × Nat) → List (Nat × Nat)
  | [] => if n ≤ lastCodePoint then [(n, lastCodePoint)] else []
  | (a, b) :: rest => if n < a then (n, a - 1) :: gapsFrom (b + 1) rest else gapsFrom (b + 1) rest

def union (rs ss : List (Nat × Nat)) : List (Nat × Nat) := normal (rs ++ ss)

def complement (rs : List (Nat × Nat)) : List (Nat × Nat) := gapsFrom 0 rs

def inter (rs ss : List (Nat × Nat)) : List (Nat × Nat) := complement (union (complement rs) (complement ss))

example : normal [(7, 9), (1, 2), (3, 4), (8, 12)] = [(1, 4), (7, 12)] := by decide
example : inter [(1, 4), (7, 12)] [(4, 8)] = [(4, 4), (7, 8)] := by decide

end Ranges

end Unbundle.Text
