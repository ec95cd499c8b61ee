/-
  Unbundle.Schema.Block — a top-level `message` or `enum` of a schema.
-/

namespace Unbundle

/-- A top-level block and what was learnt about it. -/
structure Block where
  /-- The identifier behind the nesting word of the opening line. -/
  name : String
  /-- The command id announced before the block, 0 if none was. -/
  commandId : UInt32
  /-- All lines, the opening line first; lines that announce command ids are left out. -/
  body : List String
  /-- Types named by field lines, in line order, with repetitions; once a block is resolved, what it imports. -/
  references : List String
  /-- Names of the nesting levels opened inside the block, without repetitions. -/
  nested : List String
  deriving DecidableEq, Repr

namespace Block

/-- The block that one opening line makes. -/
def opened (name : String) (commandId : UInt32) (line : String) : Block := ⟨name, commandId, [line], [], []⟩

/-- Whether a command id was announced. -/
def hasCommandId (b : Block) : Bool := b.commandId != 0

/-- The name of the file that holds the type `name`. -/
def fileNameOf (name : String) : String := name ++ ".proto"

/-- The name of the file that holds the block. -/
def fileName (b : Block) : String := fileNameOf b.name

/-- The block with one more line, and the type the line names, if any. -/
def append (b : Block) (line : String) (reference? : Option String) : Block :=
  { b with body := b.body ++ [line], references := b.references ++ reference?.toList }

/-- The block with a nesting level opened inside it. -/
def nest (b : Block) (name : String) : Block := { b with nested := b.nested.insert name }

/-- The block with its references cut down to its imports: names of its own nesting levels are left out, and
    of every other name the first appearance stays. -/
def pruned (b : Block) : Block :=
  { b with references := (b.references.filter fun name => !b.nested.contains name).eraseDups }

end Block

end Unbundle
