/-
  Unbundle.Delivery — the documents of a split, in the order in which they are handed on.
-/

import Unbundle.Splitter
import Unbundle.Text.Utf8

namespace Unbundle

/-- A document to be written. -/
inductive Document where
  /-- The whole schema with clear names. -/
  | combined (fileName contents : String)
  | block (file : BlockFile)
  | opcodes (fileName contents : String)
  deriving DecidableEq, Repr

namespace Document

def combinedFileName : String := "replace_output.proto"

def opcodesFileName : String := "PacketOpcodes.java"

def fileName : Document → String
  | combined name _ | opcodes name _ => name
  | block file => file.fileName

def contents : Document → String
  | combined _ contents | opcodes _ contents => contents
  | block file => file.contents

end Document

/-- The documents of a split: the whole schema, the files of the blocks, the opcode class. -/
def SplitResult.documents (r : SplitResult) : List Document :=
  .combined Document.combinedFileName r.combined ::
    (r.files.map .block ++ r.opcodes?.toList.map (.opcodes Document.opcodesFileName))

/-- What documents add up to. -/
structure Tally where
  blockCount : Nat
  /-- Files of blocks with a command id. -/
  commandCount : Nat
  /-- Bytes of all documents. -/
  bytes : Nat
  wroteCombined : Bool
  wroteOpcodes : Bool
  deriving DecidableEq, Repr

namespace Tally

def empty : Tally := ⟨0, 0, 0, false, false⟩

/-- The tally with one more document. -/
def add (t : Tally) (d : Document) : Tally :=
  let t := { t with bytes := t.bytes + Text.byteLength d.contents.toList }
  match d with
  | .combined .. => { t with wroteCombined := true }
  | .block file =>
    { t with
      blockCount := t.blockCount + 1
      commandCount := if file.commandId = 0 then t.commandCount else t.commandCount + 1 }
  | .opcodes .. => { t with wroteOpcodes := true }

def ofDocuments (ds : List Document) : Tally := ds.foldl add empty

end Tally

end Unbundle
