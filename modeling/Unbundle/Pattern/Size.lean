/-
  Unbundle.Pattern.Size — how large the automata of an expression are.

  An expression is searched for by an automaton over the bytes of a text, which finds where a match ends, and by
  one that runs backwards, which finds where it starts. Neither is built here, but both are measured: `extended`
  goes through an expression as their construction does, and counts states. Counted repetition copies what it
  repeats, so a short pattern can ask for a lot. An expression `fits` if both automata keep within `roomLimit`.
-/

import Unbundle.Pattern.Compose
import Unbundle.Text.ByteRanges
import Unbundle.Text.Utf8

namespace Unbundle.Pattern

open Text (ByteRange byteSequences branches)

/-! ## Extents -/

/-- Which way an automaton runs through a text. -/
inductive Direction where
  | forward
  | backward
  deriving DecidableEq, Repr

/-- How many bytes an automaton may take. -/
def roomLimit : Nat := 10 * Nat.pow 2 20

/-- The bytes of a state, less what it lists. -/
def stateRoom : Nat := 32

/-- The bytes of a way on by certain bytes of the text, in a state that lists several such ways. -/
def transitionRoom : Nat := 8

/-- The bytes of a way on whatever the text is. -/
def linkRoom : Nat := 4

/-- How far an automaton has grown. States are numbered in the order in which they are made. -/
structure Extent where
  states : Nat
  /-- The bytes of what the states list. -/
  listed : Nat
  deriving DecidableEq, Repr

namespace Extent

def room (x : Extent) : Nat := x.states * stateRoom + x.listed

def fits (x : Extent) : Bool := x.room ≤ roomLimit

/-- One more state. -/
def state (x : Extent) : Extent := { x with states := x.states + 1 }

/-- One more way on. -/
def link (x : Extent) : Extent := { x with listed := x.listed + linkRoom }

/-- A state that goes on by one of several bytes. -/
def switch (x : Extent) (ways : Nat) : Extent := ⟨x.states + 1, x.listed + ways * transitionRoom⟩

/-- A state with two ways on. -/
def fork (x : Extent) : Extent := x.state.link.link

/-- The extent after `n` copies; past the limit there is no need to go on. -/
def copies (copy : Extent → Extent) : Nat → Extent → Extent
  | 0, x => x
  | n + 1, x => if x.fits then copies copy n (copy x) else x

end Extent

/-! ## Sets -/

/-- States that may be shared, by what they do. The table has a number of slots; what is put into a slot drives out
    what was there, so not every state that could be shared is found again. -/
structure SharingTable where
  slots : Array (Option (List Nat × Nat))

namespace SharingTable

def empty (size : Nat) : SharingTable := ⟨Array.replicate size none⟩

/-- The slot of a key: all its numbers mixed into one. -/
def slotOf (t : SharingTable) (key : List Nat) : Nat :=
  let mixed := key.foldl (fun (h : UInt64) n => (h ^^^ n.toUInt64) * 1099511628211) 14695981039346656037
  mixed.toNat % t.slots.size

def find? (t : SharingTable) (key : List Nat) : Option Nat :=
  match t.slots[t.slotOf key]? with
  | some (some (k, n)) => if k = key then some n else none
  | _ => none

def insert (t : SharingTable) (key : List Nat) (n : Nat) : SharingTable :=
  ⟨t.slots.setIfInBounds (t.slotOf key) (some (key, n))⟩

end SharingTable

/-- An automaton that grows by states which may be shared. -/
abbrev Sharing := StateM (Extent × SharingTable)

/-- The state with a key; it is made if there is none. -/
def shared (key : List Nat) (make : Extent → Extent) : Sharing Nat := do
  let (x, table) ← get
  match table.find? key with
  | some n => return n
  | none =>
    set (make x, table.insert key x.states)
    return x.states

/-- The state from which one of the byte sequences leads to the state `stop`. It goes on by the first ranges; what
    follows them is made before. -/
def stateBefore (stop : Nat) : Nat → List (List ByteRange) → Sharing Nat
  | 0, _ => return stop
  | depth + 1, ss => do
    if ss.all List.isEmpty then return stop
    let ways ← (branches ss).mapM fun (r, rest) => do return [r.1, r.2, ← stateBefore stop depth rest]
    shared ways.flatten (·.switch ways.length)

/-- The state from which a byte sequence leads backwards to the state `stop`. -/
def stateBehind (stop : Nat) (s : List ByteRange) : Sharing Nat :=
  s.foldlM (fun n r => shared [n, r.1, r.2] Extent.state) stop

namespace Direction

/-- A set. A single character takes a state for each byte, and a set of ASCII characters one choice by the next
    byte. Any other set is a tree of byte sequences. Backwards, a character's last byte comes first, so that a choice
    leads to the ends of all sequences. -/
def extendBySet (d : Direction) (s : CharSet) (x : Extent) : Extent :=
  match s.only? with
  | some c => { x with states := x.states + c.utf8Size }
  | none =>
    if s.ranges.all (·.2 < 0x80) then x.state.switch s.ranges.length
    else
      let ss := s.ranges.flatMap fun r => byteSequences r.1 r.2
      match d with
      | forward => (stateBefore x.states 5 ss (x.state, .empty 10000)).2.1
      | backward =>
        let walk : Sharing Unit := ss.forM fun s => do
          let _ ← stateBehind (x.states + 1) s
          modify fun (x, table) => (x.link, table)
        (walk (x.state.state, .empty 1000)).2.1

end Direction

/-! ## Choices between literals -/

/-- The ways on from a place in the tree of some literals, given by what is left of the literals there. A literal that
    ends at the place comes between those before and those behind it, which makes several lists of ways. -/
def waysOn (rest : List (List UInt8)) : List (List (List UInt8)) :=
  let (lists, list) := rest.foldl (fun (lists, list) s =>
    if !s.isEmpty then (lists, s :: list)
    else if list.isEmpty && !lists.isEmpty && lists.all List.isEmpty then (lists, list)
    else (list :: lists, [])) ([], [])
  ((list :: lists).map List.reverse).reverse

/-- What is left of the literals behind each of the bytes that they go on with. -/
def byNextByte (list : List (List UInt8)) : List (List (List UInt8)) :=
  (list.filterMap List.head?).eraseDups.map fun b =>
    list.filterMap fun s => if s.head? = some b then some s.tail else none

/-- The tree of some literals: where literals go on, a state for each list of ways, and a choice between these lists
    and the literals that end there. -/
def extendByTree : Nat → List (List UInt8) → Extent → Extent
  | 0, _, x => x
  | depth + 1, rest, x =>
    if rest.all List.isEmpty then x
    else
      let lists := (waysOn rest).map byNextByte
      let x := lists.foldl (fun x ways =>
        let x := ways.foldl (fun x rest => extendByTree depth rest x) x
        if ways.isEmpty then x else (if ways.length = 1 then x.state else x.switch ways.length).link) x
      { x.state with listed := x.listed + (lists.length - 1) * linkRoom }

/-- A choice between literals. -/
def extendByLiterals (d : Direction) (literals : List (List Char)) (x : Extent) : Extent :=
  let bytes := literals.map fun cs =>
    let bs := Text.toBytes (String.ofList cs)
    if d = .forward then bs else bs.reverse
  extendByTree ((bytes.map List.length).foldl max 0 + 1) bytes x.state

/-! ## Expressions -/

/-- Where an expression stands in a choice: on its own, as the second alternative, or behind it. -/
inductive Place where
  | alone
  | second
  | later

/-- What an alternative adds at its end: a link to it. The second one also makes the states where the choice starts
    and ends, and links the first one. -/
def Extent.close (x : Extent) : Place → Extent
  | .alone => x
  | .second => x.fork.state
  | .later => x.link

namespace Expr

/-- Whether an expression matches no empty text. -/
def isFilled : Expr → Bool
  | fail => false
  | empty => false
  | set s => !s.ranges.isEmpty
  | assertion _ => false
  | seq a b => a.isFilled || b.isFilled
  | alt a b => a.isFilled && b.isFilled
  | group a => a.isFilled
  | times a least _ => least != 0 && a.isFilled

/-- The literals of a choice between literals. -/
def literals? : Expr → Option (List (List Char))
  | alt a b => do return (← a.literal?) :: (← b.literals?)
  | e => e.literal?.map ([·])

/-- The extent of an automaton that is extended by an expression. What a group matched is noted forwards only. A
    repetition makes as many copies as must match, then as many as may match, with a fork in front of each of the
    latter; without a bound, a fork leads back. -/
def extended (d : Direction) : Expr → Place → Extent → Extent
  | fail, p, x => x.state.state.close p
  | empty, p, x => x.state.close p
  | set s, p, x => (d.extendBySet s x).close p
  | assertion _, p, x => x.state.close p
  | seq a b, p, x =>
    match d with
    | .forward => (b.extended d .alone (a.extended d .alone x)).close p
    | .backward => (a.extended d .alone (b.extended d .alone x)).close p
  | alt a b, .alone, x =>
    match (alt a b).literals? with
    | some literals => extendByLiterals d literals x
    | none => b.extended d .second (a.extended d .alone x)
  | alt a b, p, x => b.extended d .later ((a.extended d .alone x).close p)
  | group a, p, x =>
    match d with
    | .forward => (a.extended d .alone x.state).state.close p
    | .backward => (a.extended d .alone x).close p
  | times a least most?, p, x =>
    let copy := a.extended d .alone
    let all :=
      match least, most? with
      | 0, some 1 => (copy x.fork).state
      | 0, none => if a.isFilled then copy x.fork else (copy x).fork.fork.state
      | _, none => (Extent.copies copy least x).fork
      | _, some most =>
        let x := if least = 0 then x.state else Extent.copies copy least x
        if least = most then x else Extent.copies (fun x => copy x.fork) (most - least) x.state
    all.close p

/-- Whether every match starts at the start of the text. -/
def isAtStart : Expr → Bool
  | assertion a => a == .textStart
  | seq a b => a.isAtStart || a.isHollow && b.isAtStart
  | alt a b => a.isAtStart && b.isAtStart
  | group a => a.isAtStart
  | times a least _ => least != 0 && a.isAtStart
  | _ => false

/-- Whether every match ends at the end of the text. -/
def isAtEnd : Expr → Bool
  | assertion a => a == .textEnd
  | seq a b => b.isAtEnd || b.isHollow && a.isAtEnd
  | alt a b => a.isAtEnd && b.isAtEnd
  | group a => a.isAtEnd
  | times a least _ => least != 0 && a.isAtEnd
  | _ => false

/-- The extent of the whole automaton: a loop that skips text in front of a match, unless there can be none, the
    expression as a group of its own, and a state for success. -/
def extent (e : Expr) : Direction → Extent
  | .forward =>
    let start : Extent := if e.isAtStart then ⟨1, 0⟩ else Extent.fork ⟨0, 0⟩ |>.state.switch 1
    (e.group.extended .forward .alone start).state
  | .backward =>
    let start : Extent := if e.isAtEnd then ⟨1, 0⟩ else Extent.fork ⟨0, 0⟩ |>.state.switch 1
    (e.extended .backward .alone start).state

/-- Whether the automata of an expression keep within the limit. -/
def fits (e : Expr) : Bool := [Direction.backward, .forward].all fun d => (e.extent d).fits

end Expr

end Unbundle.Pattern
