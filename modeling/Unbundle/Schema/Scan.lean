/-
  Unbundle.Schema.Scan — a schema cut into its top-level blocks, line by line.

  A scan counts nesting levels. A named nesting line at depth 0 opens a block, deeper ones only leave their
  name in it. Once a block is open, every line goes to the block opened last, up to the next one; lines that
  announce command ids go nowhere. A closing line at depth 0 is refused and changes nothing but the number of
  lines seen.
-/

import Unbundle.Event
import Unbundle.Schema.Block
import Unbundle.Schema.Line
import Unbundle.Text.Lines

namespace Unbundle

/-- A scanned schema: the shared header, and the blocks in their order. -/
structure Schema where
  header : List String
  blocks : List Block
  deriving DecidableEq, Repr

/-- A scan in progress. -/
structure Scan where
  /-- Lines seen, refused ones included. -/
  lineNumber : Nat
  /-- Nesting levels open. -/
  depth : Nat
  /-- The command id for the next block, 0 if none was announced. -/
  pending : UInt32
  header : List String
  /-- All blocks but the one opened last. -/
  earlier : List Block
  /-- The block opened last. -/
  current? : Option Block
  deriving DecidableEq, Repr

namespace Scan

/-- The scan before the first line. -/
def start : Scan := ⟨0, 0, 0, [], [], none⟩

/-- The blocks opened so far. -/
def blocks (s : Scan) : List Block := s.earlier ++ s.current?.toList

/-- The scan with a change to the block opened last. -/
def change (s : Scan) (f : Block → Block) : Scan := { s with current? := s.current?.map f }

/-- The scan with a block opened by a line. -/
def openBlock (s : Scan) (name line : String) : Scan :=
  { s with
    depth := s.depth + 1
    pending := 0
    earlier := s.blocks
    current? := some (.opened name s.pending line) }

/-- The scan with a level opened inside the current block. -/
def openNested (s : Scan) (name line : String) : Scan :=
  { s.change (fun b => (b.nest name).append line none) with depth := s.depth + 1 }

/-- The scan after a line of a known kind, and the failure if the line is refused. -/
def step (s : Scan) (kind : LineKind) (line : String) : Logged (Scan × Option Failure) :=
  let s := { s with lineNumber := s.lineNumber + 1 }
  match kind with
  | .header => return ({ s with header := s.header ++ [line] }, none)
  | .commandId id => do
    Logged.report (.commandIdSeen s.lineNumber id)
    return ({ s with pending := id }, none)
  | .opener name =>
    if s.current?.isSome && 0 < s.depth then return (s.openNested name line, none)
    else do
      Logged.report (.blockOpened s.lineNumber name s.pending)
      return (s.openBlock name line, none)
  | .nameless => return (s.change (·.append line none), none)
  | .closing =>
    if s.depth = 0 then return (s, some (.unbalanced s.lineNumber))
    else return ({ s.change (·.append line none) with depth := s.depth - 1 }, none)
  | .plain reference? => return (s.change (·.append line reference?), none)

/-- The scan after one more line, and the failure if the line is refused. -/
def push (v : Vocabulary) (s : Scan) (line : String) : Logged (Scan × Option Failure) :=
  s.step (.of v s.current?.isSome line) line

/-- The scan after more lines; the first refused line ends it. -/
def pushAll (v : Vocabulary) (s : Scan) : List String → Logged (Except Failure Scan)
  | [] => return .ok s
  | line :: rest => do
    match ← s.push v line with
    | (_, some failure) => return .error failure
    | (s, none) => s.pushAll v rest

/-- What was scanned. Levels still open are reported. -/
def finish (s : Scan) : Logged Schema := do
  if 0 < s.depth then Logged.report (.levelsUnclosed s.depth)
  return ⟨s.header, s.blocks⟩

end Scan

namespace Schema

/-- The schema of a list of lines. -/
def ofLines (v : Vocabulary) (lines : List String) : Logged (Except Failure Schema) := do
  match ← Scan.start.pushAll v lines with
  | .error failure => return .error failure
  | .ok s => return .ok (← s.finish)

/-- The schema of a text. -/
def ofText (v : Vocabulary) (text : String) : Logged (Except Failure Schema) := ofLines v (Text.lines text)

end Schema

end Unbundle
