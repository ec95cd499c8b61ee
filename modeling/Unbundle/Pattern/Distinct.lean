/-
  Unbundle.Pattern.Distinct — lists of expressions without repetition.

  The members are gathered in a search tree, ordered by a number that mixes all parts of an expression. As such
  numbers are spread evenly, the tree is shallow; that equal numbers mostly mean equal expressions costs nothing
  where they do not, since expressions are compared before one is dropped.

  - `mem_distinct`: dropping repetitions loses no expression.
-/

import Unbundle.Pattern.Basic

namespace Unbundle.Pattern

/-! ## Mixing -/

/-- Two numbers mixed into one below 2³¹ - 1, a prime. The square keeps numbers in a row apart. -/
def mix (a b : Nat) : Nat :=
  let x := (a * 1000003 + b) % 2147483647
  (x * x + 524287) % 2147483647

def mixAll (ns : List Nat) : Nat := ns.foldl mix 0

namespace CharSet

/-- The first few ranges are enough to tell most sets apart. -/
def code (s : CharSet) : Nat := mixAll ((s.ranges.take 8).flatMap fun r => [r.1, r.2])

end CharSet

def Assertion.code : Assertion → Nat
  | textStart => 1
  | textEnd => 2
  | lineStart => 3
  | lineEnd => 4
  | wordBoundary => 5
  | noWordBoundary => 6
  | wordStart => 7
  | wordEnd => 8
  | beforeWord => 9
  | afterWord => 10

namespace Expr

/-- A number that tells most expressions apart. -/
def code : Expr → Nat
  | fail => 1
  | empty => 2
  | set s => mixAll [3, s.code]
  | assertion a => mixAll [4, a.code]
  | seq a b => mixAll [5, a.code, b.code]
  | alt a b => mixAll [6, a.code, b.code]
  | group a => mixAll [7, a.code]
  | times a least most? => mixAll [8, a.code, least, (most?.map (· + 1)).getD 0]

end Expr

/-! ## Search trees -/

/-- A search tree of expressions, by a number each. -/
inductive SearchTree where
  | leaf
  | node (left : SearchTree) (key : Nat) (e : Expr) (right : SearchTree)

namespace SearchTree

/-- Adds an expression with its number, unless the tree holds it. -/
def insert (k : Nat) (a : Expr) : SearchTree → SearchTree
  | leaf => node leaf k a leaf
  | node left key e right =>
    if k < key then node (left.insert k a) key e right
    else if k = key ∧ a = e then node left key e right
    else node left key e (right.insert k a)

def toList : SearchTree → List Expr
  | leaf => []
  | node left _ e right => left.toList ++ e :: right.toList

theorem mem_insert {k : Nat} {a b : Expr} {t : SearchTree} : b ∈ (t.insert k a).toList ↔ b = a ∨ b ∈ t.toList := by
  induction t with
  | leaf => simp [insert, toList]
  | node left key e right ihl ihr =>
    simp only [insert]
    split
    · simp [toList, ihl, or_assoc]
    · split
      · rename_i h
        simp [toList, ← h.2, or_left_comm]
      · simp [toList, ihr, or_left_comm]

end SearchTree

namespace Expr

/-- The members of a list, each of them once. -/
def distinct (es : List Expr) : List Expr := (es.foldr (fun e t => t.insert e.code e) SearchTree.leaf).toList

theorem mem_distinct {e : Expr} {es : List Expr} : e ∈ distinct es ↔ e ∈ es := by
  induction es with
  | nil => simp [distinct, SearchTree.toList]
  | cons a es ih => simp only [distinct, List.foldr_cons, SearchTree.mem_insert, List.mem_cons] at ih ⊢; rw [ih]

end Expr

end Unbundle.Pattern
