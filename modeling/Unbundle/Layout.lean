/-
  Unbundle.Layout — the text of the files.

  The file of a block has four parts with an empty line behind each of the first three: provenance comments,
  the shared header, one import per line, and the lines of the block. Behind the opening line of a block with
  a command id stands an enum that holds the id.
-/

import Unbundle.Selection
import Unbundle.Text.Lines

namespace Unbundle

/-- How files are laid out. -/
structure Layout where
  indent : String
  /-- Comments at the top of every file, without their slashes. -/
  provenance : List String
  deriving DecidableEq, Repr

/-- The file of a block. -/
structure BlockFile where
  fileName : String
  blockName : String
  commandId : UInt32
  contents : String
  deriving DecidableEq, Repr

namespace Layout

/-- One tab, and no provenance. -/
def default : Layout := ⟨"\t", []⟩

/-- The name of the enum that holds a command id. -/
def commandIdEnum : String := "CmdId"

/-- The line that imports a type. -/
def importLine (name : String) : String := "import \"" ++ Block.fileNameOf name ++ "\";"

/-- The provenance comments and the empty line behind them. -/
def provenanceLines (l : Layout) : List String := l.provenance.map ("// " ++ ·) ++ [""]

/-- The enum that holds a command id; no lines for a block without one. -/
def commandIdLines (l : Layout) (id : UInt32) : List String :=
  if id = 0 then []
  else
    [ l.indent ++ "enum " ++ commandIdEnum ++ " \x7b",
      l.indent ++ l.indent ++ "NONE = 0;",
      l.indent ++ l.indent ++ "CMD_ID = " ++ toString id ++ ";",
      l.indent ++ "\x7d" ]

/-- The lines of a block with the enum behind the first of them. -/
def bodyLines (l : Layout) (b : Block) : List String :=
  match b.body with
  | [] => []
  | opening :: rest => opening :: (l.commandIdLines b.commandId ++ rest)

/-- The lines of a block's file. -/
def blockLines (l : Layout) (header : List String) (b : Block) : List String :=
  l.provenanceLines ++ (header ++ [""]) ++ (b.references.map importLine ++ [""]) ++ l.bodyLines b

/-- The file of a judged block. -/
def render (l : Layout) (header : List String) (b : JudgedBlock) : BlockFile where
  fileName := b.block.fileName
  blockName := b.block.name
  commandId := b.block.commandId
  contents := Text.unlines (l.blockLines header b.block)

/-- The whole schema in one text. -/
def renderCombined (l : Layout) (lines : List String) : String :=
  Text.unlines (l.provenanceLines ++ lines)

end Layout

end Unbundle
