/-
  Unbundle.Opcodes — the command ids of all files, as a class of Java constants.
-/

import Unbundle.Selection
import Unbundle.Text.Lines

namespace Unbundle

/-- Names with their command ids, ordered by id and then by name. -/
structure OpcodeTable where
  entries : List (String × UInt32)
  deriving DecidableEq, Repr

namespace OpcodeTable

/-- The order of entries: by id, entries of one id by name. -/
def entryLe (a b : String × UInt32) : Bool := a.2 < b.2 || (a.2 == b.2 && decide (a.1 ≤ b.1))

/-- The table of the blocks that get a file and have a command id. -/
def ofBlocks (blocks : List JudgedBlock) : OpcodeTable :=
  let chosen := blocks.filter fun b => b.isEmitted && b.block.hasCommandId
  ⟨(chosen.map fun b => (b.block.name, b.block.commandId)).mergeSort entryLe⟩

def isEmpty (t : OpcodeTable) : Bool := t.entries.isEmpty

/-- The names with a given id. -/
def namesOf (t : OpcodeTable) (id : UInt32) : List String :=
  (t.entries.filter (·.2 == id)).map Prod.fst

/-- The ids that more than one entry has, in order, with their names. -/
def shared (t : OpcodeTable) : List (UInt32 × List String) :=
  let groups := (t.entries.map Prod.snd).eraseDups.map fun id => (id, t.namesOf id)
  groups.filter (1 < ·.2.length)

/-- The events that report shared ids. -/
def warnings (t : OpcodeTable) : List Event := t.shared.map fun g => .commandIdShared g.1 g.2

/-- The line of one constant. -/
def constantLine (name : String) (id : UInt32) : String :=
  "\tpublic static final int " ++ name ++ " = " ++ toString id ++ ";"

/-- The lines of the class; `package` stands in front of it unless it is empty. -/
def javaLines (t : OpcodeTable) (package : String) : List String :=
  (if package = "" then [] else [package, ""]) ++
    ["public class PacketOpcodes \x7b", "\t// Opcodes", constantLine "NONE" 0] ++
    t.entries.map (fun e => constantLine e.1 e.2) ++ ["\x7d"]

/-- The class as a text. -/
def renderJava (t : OpcodeTable) (package : String) : String := Text.unlines (t.javaLines package)

end OpcodeTable

end Unbundle
