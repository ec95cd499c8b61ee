/-
  Unbundle.Pattern.Basic — regular expressions over characters, and what is left of them after a character.

  Matching goes character by character: after a character, one of a few expressions is left to match, the
  derivatives of the expression. Assertions look at the characters on both sides of a place, so derivatives and
  `nullable` are told these characters.
-/

import Unbundle.Text.Blank
import Unbundle.Text.Digit
import Unbundle.Text.Fold
import Unbundle.Text.Word

namespace Unbundle.Pattern

/-- A set of characters: ranges of code points in increasing order that neither overlap nor touch. -/
structure CharSet where
  ranges : List (Nat × Nat)
  deriving DecidableEq, Repr

namespace CharSet

/-- Whether the character with number `n` is in the set. -/
def mem (s : CharSet) (n : Nat) : Bool := Text.inRanges n s.ranges

/-- The set without characters. -/
def none : CharSet := ⟨[]⟩

def range (first last : Nat) : CharSet := if first ≤ last then ⟨[(first, last)]⟩ else none

def single (c : Char) : CharSet := range c.toNat c.toNat

def digit : CharSet := ⟨Text.digitRanges⟩

def word : CharSet := ⟨Text.wordRanges⟩

def blank : CharSet := ⟨Text.blankRanges⟩

def union (s t : CharSet) : CharSet := ⟨Text.Ranges.union s.ranges t.ranges⟩

def inter (s t : CharSet) : CharSet := ⟨Text.Ranges.inter s.ranges t.ranges⟩

def complement (s : CharSet) : CharSet := ⟨Text.Ranges.complement s.ranges⟩

def any : CharSet := complement none

def diff (s t : CharSet) : CharSet := inter s (complement t)

def symmDiff (s t : CharSet) : CharSet := union (diff s t) (diff t s)

/-- All characters that differ in case only from one of the set. -/
def folded (s : CharSet) : CharSet := union s ⟨Text.foldedRanges s.ranges⟩

/-- The one character of a set that has no other. -/
def only? (s : CharSet) : Option Char :=
  match s.ranges with
  | [(first, last)] => if first = last then some (Char.ofNat first) else Option.none
  | _ => Option.none

end CharSet

/-- A condition on a place between two characters. -/
inductive Assertion where
  | textStart
  | textEnd
  | lineStart
  | lineEnd
  | wordBoundary
  | noWordBoundary
  | wordStart
  | wordEnd
  | beforeWord
  | afterWord
  deriving DecidableEq, Repr

/-- Whether a condition holds between two characters; none stands for an end of the text. -/
def Assertion.holds (a : Assertion) (before after : Option Char) : Bool :=
  let isWord := fun (c : Option Char) => (c.map Text.isWord).getD false
  match a with
  | textStart => before.isNone
  | textEnd => after.isNone
  | lineStart => before.isNone || before == some '\n'
  | lineEnd => after.isNone || after == some '\n'
  | wordBoundary => isWord before != isWord after
  | noWordBoundary => isWord before == isWord after
  | wordStart => !isWord before && isWord after
  | wordEnd => isWord before && !isWord after
  | beforeWord => !isWord before
  | afterWord => !isWord after

/-- A regular expression. -/
inductive Expr where
  /-- Matches nothing. -/
  | fail
  /-- Matches the empty text. -/
  | empty
  | set (s : CharSet)
  | assertion (a : Assertion)
  | seq (a b : Expr)
  | alt (a b : Expr)
  /-- Matches as what is inside does, and notes what it matched. -/
  | group (a : Expr)
  /-- At least `least` and at most `most?` times. -/
  | times (a : Expr) (least : Nat) (most? : Option Nat)
  deriving DecidableEq, Repr

namespace Expr

/-- Whether an expression matches the empty text between two characters. -/
def nullable (before after : Option Char) : Expr → Bool
  | fail => false
  | empty => true
  | set _ => false
  | assertion a => a.holds before after
  | seq a b => a.nullable before after && b.nullable before after
  | alt a b => a.nullable before after || b.nullable before after
  | group a => a.nullable before after
  | times a least _ => least == 0 || a.nullable before after

/-- A sequence, with the trivial ones cut short. -/
def join : Expr → Expr → Expr
  | fail, _ => fail
  | empty, b => b
  | a, b => if b = fail then fail else seq a b

/-- What may be left to match after the character `c`, with `before` in front of it. -/
def derivatives (before : Option Char) (c : Char) : Expr → List Expr
  | fail => []
  | empty => []
  | set s => if s.mem c.toNat then [empty] else []
  | assertion _ => []
  | seq a b =>
    let first := (a.derivatives before c).map (·.join b)
    if a.nullable before (some c) then first ++ b.derivatives before c else first
  | alt a b => a.derivatives before c ++ b.derivatives before c
  | group a => a.derivatives before c
  | times a least most? =>
    if most? = some 0 then []
    else
      let least := if a.nullable before (some c) then 0 else least - 1
      let most? := most?.map (· - 1)
      let rest := if most? = some 0 then empty else times a least most?
      (a.derivatives before c).map (·.join rest)

end Expr

end Unbundle.Pattern
