/-
  Unbundle.Pattern.Reading — patterns written as text.

  Literals, `.`, `^` and `$`, the operators `*`, `+`, `?` and counted repetition with their lazy forms,
  bracketed sets with ranges, negation, nesting and set operators, groups, alternatives, flags, and the escapes.
  A lone `]` or closing brace is a literal. A pattern is refused if a bracket does not close, if an operator has
  nothing to repeat, if a range or a count runs backwards, if it asks for what no such search can do (looking
  around, references to groups) or for an escape nobody knows, if it is nested too deeply, and if a search for
  it would take too much room.

  This is not all that a library for regular expressions offers: classes by Unicode property and the flags `x`, `R`
  and `-u` are not read, and two groups may have one name. What is said about runs does not rest on it (`Formats`).
-/

import Unbundle.Pattern.Compose
import Unbundle.Pattern.Size
import Unbundle.Text.Hex
import Unbundle.Text.Reader

namespace Unbundle.Pattern

open Text (Reader)
open Text.Reader

/-! ## Layers -/

/-- How deep a pattern may be nested. -/
def maxDepth : Nat := 250

/-- Something read from a pattern, with its depth: how many brackets, groups, operators and lists of several things
    lie inside one another there. -/
structure Layered (α : Type) where
  content : α
  depth : Nat

/-- The depth of a list of `count` things of which the deepest has the depth `deepest`. -/
def listDepth (count deepest : Nat) : Nat := if 1 < count then deepest + 1 else deepest

/-- How the rest of a group is read. -/
structure Flags where
  ignoreCase : Bool
  multiLine : Bool
  dotMatchesAll : Bool
  deriving DecidableEq, Repr

namespace Flags

def default : Flags := ⟨false, false, false⟩

/-- A set under the flags. -/
def close (f : Flags) (s : CharSet) : CharSet := if f.ignoreCase then .folded s else s

/-- The flags with one of them set or cleared. Some flags concern only how much is matched, or name what holds
    anyway. -/
def change? (f : Flags) (c : Char) (on : Bool) : Option Flags :=
  match c with
  | 'i' => some { f with ignoreCase := on }
  | 'm' => some { f with multiLine := on }
  | 's' => some { f with dotMatchesAll := on }
  | 'U' => some f
  | 'u' => if on then some f else none
  | _ => none

end Flags

/-! ## Escapes -/

/-- What an escape stands for. -/
inductive Escape where
  | literal (c : Char)
  | set (s : CharSet)
  | assertion (a : Assertion)

/-- ASCII punctuation, blanks and controls may stand behind a backslash for themselves. -/
def isEscapable (c : Char) : Bool := c.toNat < 128 && !c.isAlphanum && c != '<' && c != '>'

/-- The character with a number in hexadecimal: so many digits, or any number of them between braces. -/
def hexCharacter (digits : Nat) : Reader Char := do
  let ds ← (do
    if ← startsWith "\x7b" then
      let ds ← takeWhile (· != '}')
      char '}'
      if ds.isEmpty || !ds.all Text.isHexDigit then refuse
      return ds
    else takeExactly digits Text.isHexDigit)
  match Text.charOf? (Text.hexValue ds) with
  | some c => return c
  | none => refuse

/-- The kind of word boundary named between braces behind a `\b`, if a name stands there. -/
def namedBoundary : Reader Assertion := do
  let rest ← left
  match rest with
  | '{' :: c :: _ =>
    if c.isAlpha || c == '-' then
      if ← startsWith "\x7bstart\x7d" then return .wordStart
      else if ← startsWith "\x7bend\x7d" then return .wordEnd
      else if ← startsWith "\x7bstart-half\x7d" then return .beforeWord
      else if ← startsWith "\x7bend-half\x7d" then return .afterWord
      else refuse
    else return .wordBoundary
  | _ => return .wordBoundary

/-- What follows a backslash. -/
def escape : Reader Escape := do
  let c ← item
  if isEscapable c then return .literal c
  else
    match c with
    | 'a' => return .literal '\x07'
    | 'f' => return .literal '\x0c'
    | 't' => return .literal '\t'
    | 'n' => return .literal '\n'
    | 'r' => return .literal '\r'
    | 'v' => return .literal '\x0b'
    | 'x' => return .literal (← hexCharacter 2)
    | 'u' => return .literal (← hexCharacter 4)
    | 'U' => return .literal (← hexCharacter 8)
    | 'd' => return .set .digit
    | 'D' => return .set (.complement .digit)
    | 's' => return .set .blank
    | 'S' => return .set (.complement .blank)
    | 'w' => return .set .word
    | 'W' => return .set (.complement .word)
    | 'A' => return .assertion .textStart
    | 'z' => return .assertion .textEnd
    | 'b' => return .assertion (← namedBoundary)
    | 'B' => return .assertion .noWordBoundary
    | '<' => return .assertion .wordStart
    | '>' => return .assertion .wordEnd
    | _ => refuse

/-! ## Bracketed sets -/

/-- An operator between the parts of a bracketed set. -/
inductive SetOperator where
  | inter
  | diff
  | symmDiff

/-- A bracketed set read so far. -/
structure BracketState where
  negated : Bool
  /-- What stands before the last operator, with that operator. -/
  before? : Option (Layered CharSet × SetOperator)
  /-- The members since then, as deep as the deepest of them. -/
  members : Layered CharSet
  /-- How many members there are since then. -/
  count : Nat

namespace BracketState

/-- A set without members so far. -/
def start (negated : Bool) : BracketState := ⟨negated, none, ⟨.none, 0⟩, 0⟩

def add (b : BracketState) (s : Layered CharSet) : BracketState :=
  let members := if b.count = 0 then s.content else .union b.members.content s.content
  { b with members := ⟨members, max b.members.depth s.depth⟩, count := b.count + 1 }

/-- All read so far as one set. -/
def whole (b : BracketState) (flags : Flags) : Layered CharSet :=
  let members : Layered CharSet := ⟨b.members.content, listDepth b.count b.members.depth⟩
  match b.before? with
  | none => members
  | some (before, op) =>
    let s := flags.close before.content
    let t := flags.close members.content
    let set := match op with
      | .inter => .inter s t
      | .diff => .diff s t
      | .symmDiff => .symmDiff s t
    ⟨set, max before.depth members.depth + 1⟩

def operate (b : BracketState) (flags : Flags) (op : SetOperator) : BracketState :=
  { start b.negated with before? := some (b.whole flags, op) }

def result (b : BracketState) (flags : Flags) : Layered CharSet :=
  let whole := b.whole flags
  let s := flags.close whole.content
  ⟨if b.negated then .complement s else s, whole.depth + 1⟩

end BracketState

/-- The sets of characters that go by a name between colons. -/
def namedSet? : String → Option CharSet
  | "alnum" => some (.union (.range 48 57) (.union (.range 65 90) (.range 97 122)))
  | "alpha" => some (.union (.range 65 90) (.range 97 122))
  | "ascii" => some (.range 0 127)
  | "blank" => some (.union (.single '\t') (.single ' '))
  | "cntrl" => some (.union (.range 0 31) (.single '\x7f'))
  | "digit" => some (.range 48 57)
  | "graph" => some (.range 33 126)
  | "lower" => some (.range 97 122)
  | "print" => some (.range 32 126)
  | "punct" => some (.union (.union (.range 33 47) (.range 58 64)) (.union (.range 91 96) (.range 123 126)))
  | "space" => some (.union (.range 9 13) (.single ' '))
  | "upper" => some (.range 65 90)
  | "word" => some (.union (.union (.range 48 57) (.range 65 90)) (.union (.single '_') (.range 97 122)))
  | "xdigit" => some (.union (.range 48 57) (.union (.range 65 70) (.range 97 102)))
  | _ => none

/-- A named set inside brackets. -/
def namedSet : Reader CharSet := do
  text "[:"
  let negated ← startsWith "^"
  let name ← takeWhile (· != ':')
  text ":]"
  match namedSet? (String.ofList name) with
  | some s => return if negated then .complement s else s
  | none => refuse

/-- A literal or an escape inside brackets. -/
def bracketItem : Reader Escape := do
  match ← item with
  | '\\' => escape
  | c => return .literal c

/-- One character or set inside brackets, or a range. -/
def bracketMember : Reader CharSet := do
  let first ← bracketItem
  let isRange := match ← left with
    | '-' :: c :: _ => c != ']' && c != '-'
    | _ => false
  if isRange then
    char '-'
    match first, ← bracketItem with
    | .literal a, .literal b => if a ≤ b then return .range a.toNat b.toNat else refuse
    | _, _ => refuse
  else
    match first with
    | .literal c => return .single c
    | .set s => return s
    | .assertion _ => refuse

/-- The start of a bracketed set behind its bracket: a negation, and dashes or one closing bracket that stand
    for themselves. -/
def bracketStart : Reader BracketState := do
  let negated ← startsWith "^"
  let dashes ← takeWhile (· == '-')
  let state := dashes.foldl (fun b d => b.add ⟨.single d, 0⟩) (BracketState.start negated)
  if dashes.isEmpty then
    if ← startsWith "]" then return state.add ⟨.single ']', 0⟩
  return state

/-- A bracketed set behind its bracket. -/
def bracket (flags : Flags) : Reader (Layered CharSet) :=
  levels (fun self (_ : Unit) => do
    let state ← bracketStart
    loop (fun (b : BracketState) => do
      let next ← peek?
      if next == some '[' then
        match namedSet (← left) with
        | some (s, rest) =>
          set rest
          return .inl (b.add ⟨s, 0⟩)
        | none =>
          char '['
          return .inl (b.add (← self ()))
      else if ← startsWith "]" then return .inr (b.result flags)
      else if ← startsWith "&&" then return .inl (b.operate flags .inter)
      else if ← startsWith "--" then return .inl (b.operate flags .diff)
      else if ← startsWith "~~" then return .inl (b.operate flags .symmDiff)
      else return .inl (b.add ⟨← bracketMember, 0⟩)) state) maxDepth ()

/-! ## Counts -/

/-- A count: digits with blanks around them; none if there is no digit. -/
def count? : Reader (Option Nat) := do
  let _ ← takeWhile Text.isBlank
  let ds ← takeWhile Char.isDigit
  let _ ← takeWhile Text.isBlank
  let n := Text.decimalValue ds
  if n < Nat.pow 2 32 then return if ds.isEmpty then none else some n else refuse

/-- The bounds of a counted repetition, behind its brace. -/
def bounds : Reader (Nat × Option Nat) := do
  let some least ← count? | refuse
  if ← startsWith "," then
    if ← startsWith "\x7d" then return (least, none)
    let some most ← count? | refuse
    char '}'
    if least ≤ most then return (least, some most) else refuse
  else
    char '}'
    return (least, some least)

/-! ## Groups and alternatives -/

/-- A group read so far. -/
structure GroupState where
  flags : Flags
  /-- The finished alternatives, the last one first. -/
  alternatives : List (Layered Expr)
  /-- The items of the current alternative, the last one first; none stands for a change of flags, which cannot
      be repeated. -/
  items : List (Layered (Option Expr))

namespace GroupState

def add (g : GroupState) (e : Expr) (depth : Nat) : GroupState := { g with items := ⟨some e, depth⟩ :: g.items }

/-- Adds an item that holds no other. -/
def addLeaf (g : GroupState) (e : Expr) : GroupState := g.add e 0

/-- The depth of a list. -/
def depthOf {α : Type} (xs : List (Layered α)) : Nat := listDepth xs.length (xs.foldl (fun d x => max d x.depth) 0)

def endAlternative (g : GroupState) : GroupState :=
  let e := Expr.sequence (g.items.filterMap Layered.content).reverse
  { g with alternatives := ⟨e, depthOf g.items⟩ :: g.alternatives, items := [] }

def result (g : GroupState) : Layered Expr :=
  let alternatives := g.endAlternative.alternatives
  ⟨Expr.choice (alternatives.map Layered.content).reverse, depthOf alternatives⟩

/-- Repeats the last item, if there is one and it is not nested too deeply for that. -/
def repeatLast? (g : GroupState) (least : Nat) (most? : Option Nat) : Option GroupState :=
  match g.items with
  | ⟨some e, depth⟩ :: rest =>
    if depth < maxDepth then some { g with items := ⟨some (e.repeated least most?), depth + 1⟩ :: rest } else none
  | _ => none

end GroupState

/-- Repeats the last item; a question mark behind the operator makes it lazy, which changes nothing here. -/
def repeatLast (g : GroupState) (least : Nat) (most? : Option Nat) : Reader GroupState := do
  let _ ← startsWith "?"
  match g.repeatLast? least most? with
  | some g => return g
  | none => refuse

/-- Flags up to the colon or the closing parenthesis behind them, which is given too. -/
def readFlags (flags : Flags) : Reader (Flags × List Char × Char) :=
  loop (fun (state : Flags × List Char) => do
    let (flags, seen) := state
    let c ← item
    if c == ')' || c == ':' then
      if seen.head? == some '-' then refuse
      return .inr (flags, seen, c)
    else if seen.contains c then refuse
    else if c == '-' then return .inl (flags, '-' :: seen)
    else
      match flags.change? c (!seen.contains '-') with
      | some flags => return .inl (flags, c :: seen)
      | none => refuse) (flags, [])

/-- The name of a group, behind its angle bracket. -/
def groupName : Reader Unit := do
  let name ← takeWhile (· != '>')
  char '>'
  match name with
  | [] => refuse
  | c :: cs =>
    if !(Text.isWord c && !Text.isDigit c) then refuse
    if !cs.all (fun c => Text.isWord c || c == '.' || c == '[' || c == ']') then refuse

/-- What stands behind an opening parenthesis. -/
def group (self : Flags × Bool → Reader (Layered Expr)) (g : GroupState) : Reader GroupState := do
  let noting := (do
    let inside ← self (g.flags, true)
    return g.add (.group inside.content) (inside.depth + 1))
  if ← startsWith "?" then
    if ← startsWith "P<" then
      groupName
      noting
    else if ← startsWith "<" then
      groupName
      noting
    else
      let (flags, seen, last) ← readFlags g.flags
      if last == ':' then
        let inside ← self (flags, true)
        return g.add inside.content (inside.depth + 1)
      else if seen.isEmpty then refuse
      else return { g with flags, items := ⟨none, 0⟩ :: g.items }
  else noting

/-- One step through a group: an item, an operator, or the end of the group. -/
def groupStep (self : Flags × Bool → Reader (Layered Expr)) (inParentheses : Bool) (g : GroupState) :
    Reader (GroupState ⊕ Layered Expr) := do
  match ← left with
  | [] => if inParentheses then refuse else return .inr g.result
  | c :: _ =>
    char c
    let flags := g.flags
    let literal := fun c => g.addLeaf (.set (flags.close (.single c)))
    match c with
    | ')' => if inParentheses then return .inr g.result else refuse
    | '|' => return .inl g.endAlternative
    | '(' => return .inl (← group self g)
    | '[' =>
      let s ← bracket flags
      return .inl (g.add (.set s.content) s.depth)
    | '*' => return .inl (← repeatLast g 0 none)
    | '+' => return .inl (← repeatLast g 1 none)
    | '?' => return .inl (← repeatLast g 0 (some 1))
    | '{' =>
      let (least, most?) ← bounds
      return .inl (← repeatLast g least most?)
    | '.' =>
      return .inl (g.addLeaf (.set (if flags.dotMatchesAll then .any else .complement (.single '\n'))))
    | '^' => return .inl (g.addLeaf (.assertion (if flags.multiLine then .lineStart else .textStart)))
    | '$' => return .inl (g.addLeaf (.assertion (if flags.multiLine then .lineEnd else .textEnd)))
    | '\\' =>
      match ← escape with
      | .literal c => return .inl (literal c)
      | .set s => return .inl (g.addLeaf (.set s))
      | .assertion a => return .inl (g.addLeaf (.assertion a))
    | c => return .inl (literal c)

/-- Alternatives up to the end of the text, or up to a closing parenthesis. -/
def alternatives : Flags × Bool → Reader (Layered Expr) :=
  levels (fun self (flags, inParentheses) => loop (groupStep self inParentheses) ⟨flags, [], []⟩) (maxDepth + 1)

/-- The expression that a pattern stands for. -/
def read? (pattern : String) : Option Expr :=
  match readAll (alternatives (.default, false)) pattern.toList with
  | some ⟨e, depth⟩ => if depth ≤ maxDepth ∧ e.fits then some e else none
  | none => none

end Unbundle.Pattern
