/-
  Unbundle.Pattern.Compose — expressions put together from parts.

  `sequence`, `choice` and `repeated` match what their names say, and drop what makes no difference: empty parts,
  rounds of what matches the empty text only, and a start that all alternatives share. A choice between
  characters, or between sets, is a set.
-/

import Unbundle.Pattern.Basic

namespace Unbundle.Pattern.Expr

/-! ## Sequences -/

/-- One expression after another. The parts of a sequence are listed from the front, and none of them is empty. -/
def followedBy : Expr → Expr → Expr
  | empty, b => b
  | seq x y, b => seq x (y.followedBy b)
  | a, empty => a
  | a, b => seq a b

/-- Expressions one after the other. -/
def sequence (es : List Expr) : Expr := es.foldr followedBy empty

/-- The character that an expression matches, if that is all it matches. -/
def character? : Expr → Option Char
  | set s => s.only?
  | _ => none

/-- The characters that an expression matches one after the other, if that is all it matches. -/
def literal? : Expr → Option (List Char)
  | set s => s.only?.map ([·])
  | seq a b => do return (← a.character?) :: (← b.literal?)
  | _ => none

/-- Whether an expression starts with a character that stands alone. -/
def startsLiterally : Expr → Bool
  | seq a _ => a.character?.isSome
  | e => e.character?.isSome

/-- The parts of a sequence; characters in a row are one part. -/
def parts : Expr → List Expr
  | seq a b =>
    match b.parts with
    | p :: ps => if a.character?.isSome && p.startsLiterally then seq a p :: ps else a :: p :: ps
    | [] => [a]
  | e => [e]

/-! ## Choices -/

/-- The alternatives of a choice. -/
def alternatives : Expr → List Expr
  | alt a b => a.alternatives ++ b.alternatives
  | e => [e]

/-- A set that is not a single character. -/
def class? : Expr → Option CharSet
  | set s => if s.only?.isSome then none else some s
  | _ => none

/-- The union of sets. -/
def ofSets (sets : List CharSet) : Expr := set (sets.foldl .union .none)

/-- A choice between alternatives as they are. -/
def altAll : Expr → List Expr → Expr
  | e, [] => e
  | e, f :: rest => alt e (altAll f rest)

/-- One of several alternatives, none of them a choice. -/
def oneOf (es : List Expr) : Expr :=
  match es, es.mapM character?, es.mapM class? with
  | [], _, _ => fail
  | [e], _, _ => e
  | _, some cs, _ => ofSets (cs.map .single)
  | _, _, some sets => ofSets sets
  | e :: rest, _, _ => altAll e rest

/-- Whether what an expression matched is noted somewhere. -/
def hasGroup : Expr → Bool
  | seq a b => a.hasGroup || b.hasGroup
  | alt a b => a.hasGroup || b.hasGroup
  | group _ => true
  | times a _ _ => a.hasGroup
  | _ => false

/-- What two lists start with alike. Groups are never alike, as each notes its own match. -/
def sharedStart : List Expr → List Expr → List Expr
  | a :: as, b :: bs => if a = b && !a.hasGroup then a :: sharedStart as bs else []
  | _, _ => []

/-- One of several alternatives. What all of them start with is taken in front of the choice, if all of them go on or
    end behind further parts. -/
def choice (es : List Expr) : Expr :=
  let es := es.flatMap alternatives
  match es.map parts with
  | first :: second :: rest =>
    let lists := first :: second :: rest
    let shared := if lists.all (1 < ·.length) then (second :: rest).foldl sharedStart first else []
    if shared.isEmpty then oneOf es
    else
      let ends := lists.map fun ps => sequence (ps.drop shared.length)
      sequence (shared ++ [oneOf (ends.flatMap alternatives)])
  | _ => oneOf es

/-! ## Repetitions -/

/-- Whether an expression matches the empty text only. -/
def isHollow : Expr → Bool
  | fail => false
  | empty => true
  | set _ => false
  | assertion _ => true
  | seq a b => a.isHollow && b.isHollow
  | alt a b => a.isHollow && b.isHollow
  | group a => a.isHollow
  | times a _ most? => most? == some 0 || a.isHollow

/-- An expression at least `least` and at most `most?` times. More than one round of what matches the empty text only
    makes no difference. -/
def repeated (e : Expr) (least : Nat) (most? : Option Nat) : Expr :=
  let (least, most?) := if e.isHollow then (min least 1, some (min (most?.getD 1) 1)) else (least, most?)
  if most? = some 0 then empty
  else if least = 1 ∧ most? = some 1 then e
  else times e least most?

end Unbundle.Pattern.Expr
