/-
  Unbundle.Splitter — one pass from an obfuscated schema to all its files.

  Clear names are put in, the schema is cut into blocks, the blocks are pruned and judged, and the files are
  laid out. A schema that cannot be cut into blocks gives nothing.
-/

import Unbundle.Clearing
import Unbundle.Glossary.Basic
import Unbundle.Layout
import Unbundle.Opcodes
import Unbundle.Schema.Scan
import Unbundle.Settings

namespace Unbundle

/-- All that decides how a schema is split. -/
structure Splitter where
  vocabulary : Vocabulary
  selection : Selection
  /-- Whether changed lines carry a note. -/
  annotate : Bool
  /-- Lines in front of the header that the schema brings. -/
  leadingHeader : List String
  /-- Lines behind it. -/
  trailingHeader : List String
  layout : Layout
  /-- The first line of the opcode class; none if there is to be no such class. -/
  opcodePackage? : Option String

/-- All that a split gives. -/
structure SplitResult where
  /-- The schema with clear names, line by line. -/
  clearedLines : List String
  /-- How many lines had something replaced. -/
  changedLines : Nat
  /-- The shared header of all files. -/
  header : List String
  blocks : List JudgedBlock
  /-- The whole schema in one text. -/
  combined : String
  files : List BlockFile
  opcodes? : Option String
  deriving DecidableEq, Repr

/-- The blocks that have files. -/
def SplitResult.emitted (r : SplitResult) : List JudgedBlock := r.blocks.filter JudgedBlock.isEmitted

namespace Splitter

/-- No extra header and no opcode class. -/
def default : Splitter where
  vocabulary := .standard Vocabulary.defaultSuppressed Vocabulary.defaultMarker
  selection := .default
  annotate := true
  leadingHeader := []
  trailingHeader := []
  layout := .default
  opcodePackage? := none

/-- The splitter that settings describe. The pattern is looked at before the blacklist file is read. -/
def ofSettings [Formats] (readFile : String → Except Fault String) (s : Settings) : Except Failure Splitter := do
  let selection ← Selection.make s.parser.obfuscatedNamePattern []
  let blacklist ← s.blacklist.resolve readFile
  return {
    vocabulary := .standard s.parser.suppressedTypes Vocabulary.defaultMarker
    selection := { selection with blacklist }
    annotate := s.annotateReplacements
    leadingHeader := [s.gameVersionLine, ""]
    trailingHeader := s.headerContent
    layout := .default
    opcodePackage? := if s.opcodes.enabled then some s.opcodes.packageHeader else none }

/-- The schema with clear names. -/
def clear (s : Splitter) (tree : KeyTree) (schema : String) : Logged (List ClearedLine) := do
  let cleared ← Clearing.lines tree s.annotate (Text.lines schema)
  Logged.report (.glossaryApplied tree.size (cleared.countP ClearedLine.changed) cleared.length)
  return cleared

/-- The files of a scanned schema, with the verdicts on its blocks. -/
def layOut (s : Splitter) (cleared : List ClearedLine) (schema : Schema) : Logged SplitResult := do
  let header := s.leadingHeader ++ schema.header ++ s.trailingHeader
  let blocks ← s.selection.resolve schema.blocks
  let files := (blocks.filter JudgedBlock.isEmitted).map (s.layout.render header)
  let lines := cleared.map ClearedLine.text
  let table := OpcodeTable.ofBlocks blocks
  if s.opcodePackage?.isSome then Logged.reportAll table.warnings
  Logged.report (.filesLaidOut files.length)
  return {
    clearedLines := lines
    changedLines := cleared.countP ClearedLine.changed
    header
    blocks
    combined := s.layout.renderCombined lines
    files
    opcodes? := s.opcodePackage?.map table.renderJava }

/-- Splits a schema with the clear names of a glossary. -/
def run (s : Splitter) (glossary : Glossary) (schema : String) : Logged (Except Failure SplitResult) := do
  let cleared ← s.clear glossary.keyTree schema
  match ← Schema.ofLines s.vocabulary (cleared.map ClearedLine.text) with
  | .error failure => return .error failure
  | .ok parsed => return .ok (← s.layOut cleared parsed)

end Splitter

end Unbundle
