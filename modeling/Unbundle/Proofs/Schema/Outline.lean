/-
  Unbundle.Proofs.Schema.Outline — schemas without the texts of their lines.

  An outline keeps how many header lines and body lines there are, and all that was learnt about the blocks; the lines
  are blank. A scan goes by the kinds of its lines, and its outline by nothing else.

  - `outline_step`: what a line does to an outline is told by the merged kind of the line.
  - `outline_pushAll`, `outline_ofLines`: lines of the same kinds make schemas of one outline, or fail alike.
  - `outline_resolve`, `ofBlocks_outline`: verdicts, and the table of command ids, are read off outlines.
-/

import Unbundle.Opcodes
import Unbundle.Proofs.Schema.Remark
import Unbundle.Proofs.Schema.Run

namespace Unbundle

/-! ## Outlines -/

/-- The block with blank lines. -/
def Block.outline (b : Block) : Block := { b with body := b.body.map fun _ => "" }

/-- The schema with blank lines. -/
def Schema.outline (s : Schema) : Schema := ⟨s.header.map fun _ => "", s.blocks.map Block.outline⟩

/-- The verdict on the block with blank lines. -/
def JudgedBlock.outline (b : JudgedBlock) : JudgedBlock := { b with block := b.block.outline }

/-- Two lines are of one kind, whether or not a block is open; nesting words without a name count as lines that name
    no type. -/
def Line.SameKind (v : Vocabulary) (line line' : String) : Prop :=
  ∀ inBlock, (LineKind.of v inBlock line).merged = (LineKind.of v inBlock line').merged

namespace Block

variable (b : Block) (name line : String) (reference? : Option String)

@[simp] theorem outline_append : (b.append line reference?).outline = b.outline.append "" reference? := by
  simp [outline, append]

@[simp] theorem outline_nest : (b.nest name).outline = b.outline.nest name := rfl

@[simp] theorem outline_opened (id : UInt32) : (opened name id line).outline = opened name id "" := rfl

end Block

namespace Scan

/-- The scan with blank lines. -/
def outline (s : Scan) : Scan :=
  { s with
    header := s.header.map fun _ => ""
    earlier := s.earlier.map Block.outline
    current? := s.current?.map Block.outline }

variable (s : Scan) (name line : String)

@[simp] theorem lineNumber_outline : s.outline.lineNumber = s.lineNumber := rfl

@[simp] theorem depth_outline : s.outline.depth = s.depth := rfl

@[simp] theorem outline_depth (depth : Nat) :
    ({ s with depth := depth } : Scan).outline = { s.outline with depth := depth } := rfl

@[simp] theorem isSome_outline : s.outline.current?.isSome = s.current?.isSome := Option.isSome_map

@[simp] theorem blocks_outline : s.outline.blocks = s.blocks.map Block.outline := by
  unfold blocks outline
  rw [List.map_append]
  cases s.current? <;> rfl

@[simp] theorem outline_change_append (reference? : Option String) :
    (s.change (·.append line reference?)).outline = s.outline.change (·.append "" reference?) := by
  unfold change outline
  cases s.current? <;> simp

@[simp] theorem outline_openNested : (s.openNested name line).outline = s.outline.openNested name "" := by
  unfold openNested change outline
  cases s.current? <;> simp

@[simp] theorem outline_openBlock : (s.openBlock name line).outline = s.outline.openBlock name "" := by
  have hBlocks := s.blocks_outline
  unfold openBlock
  rw [hBlocks]
  rfl

/-! ## Runs of lines -/

/-- The text of a line is kept, and nothing else but the kind of the line is looked at. -/
theorem outline_step (kind : LineKind) : (s.outline.step kind.merged "").value =
    ((s.step kind line).value.1.outline, (s.step kind line).value.2) := by
  have hNext : ({ s.outline with lineNumber := s.outline.lineNumber + 1 } : Scan) =
      ({ s with lineNumber := s.lineNumber + 1 } : Scan).outline := rfl
  rw [value_step, value_step, hNext]
  generalize ({ s with lineNumber := s.lineNumber + 1 } : Scan) = t
  cases kind with
  | header => simp [LineKind.merged, outline]
  | commandId id => rfl
  | opener name => by_cases h : t.current?.isSome ∧ 0 < t.depth <;> simp [LineKind.merged, h]
  | nameless => simp [LineKind.merged]
  | closing => by_cases h : t.depth = 0 <;> simp [LineKind.merged, h]
  | plain reference? => simp [LineKind.merged]

variable {v : Vocabulary} {s s' : Scan}

/-- Lines of one kind do the same to scans of one outline. -/
theorem outline_push (hs : s.outline = s'.outline) {line line' : String} (h : Line.SameKind v line line') :
    (s.push v line).value.1.outline = (s'.push v line').value.1.outline ∧
      (s.push v line).value.2 = (s'.push v line').value.2 := by
  have hBlock : s.current?.isSome = s'.current?.isSome := by rw [← isSome_outline, hs, isSome_outline]
  have hStep := outline_step s line (.of v s.current?.isSome line)
  rw [hs, h, hBlock, outline_step] at hStep
  unfold push
  rw [hBlock]
  exact ⟨(congrArg Prod.fst hStep).symm, (congrArg Prod.snd hStep).symm⟩

theorem outline_pushAll {lines lines' : List String} (h : List.Forall₂ (Line.SameKind v) lines lines')
    (hs : s.outline = s'.outline) :
    (s.pushAll v lines).value.map outline = (s'.pushAll v lines').value.map outline := by
  induction h generalizing s s' with
  | nil => exact congrArg Except.ok hs
  | @cons line line' lines lines' hLine _ ih =>
    have hPush := outline_push hs hLine
    rw [pushAll, pushAll, Logged.value_bind, Logged.value_bind]
    generalize (s.push v line).value = after at hPush ⊢
    generalize (s'.push v line').value = after' at hPush ⊢
    obtain ⟨t, failure?⟩ := after
    obtain ⟨t', failure?'⟩ := after'
    obtain ⟨hNext, rfl⟩ := hPush
    cases failure? with
    | none => exact ih hNext
    | some failure => rfl

end Scan

/-- Lines of the same kinds make schemas of one outline, or fail alike. -/
theorem Schema.outline_ofLines {v : Vocabulary} {lines lines' : List String}
    (h : List.Forall₂ (Line.SameKind v) lines lines') :
    (Schema.ofLines v lines).value.map Schema.outline = (Schema.ofLines v lines').value.map Schema.outline := by
  have hOutline : ∀ lines, (Schema.ofLines v lines).value.map Schema.outline =
      ((Scan.start.pushAll v lines).value.map Scan.outline).map fun s => ⟨s.header, s.blocks⟩ := by
    intro lines
    rw [value_ofLines]
    rcases (Scan.start.pushAll v lines).value with failure | s
    · rfl
    · show Except.ok _ = Except.ok _
      rw [Schema.outline, ← Scan.blocks_outline]
      rfl
  rw [hOutline, hOutline, Scan.outline_pushAll h rfl]

/-! ## Verdicts -/

/-- The verdicts on blocks do not depend on what their lines say. -/
theorem Selection.outline_resolve (selection : Selection) (blocks : List Block) :
    (selection.resolve (blocks.map Block.outline)).value =
      (selection.resolve blocks).value.map JudgedBlock.outline := by
  have hPruned : (blocks.map Block.outline).map Block.pruned = (blocks.map Block.pruned).map Block.outline := by
    rw [List.map_map, List.map_map]
    rfl
  have hImported : ((blocks.map Block.pruned).map Block.outline).flatMap Block.references =
      (blocks.map Block.pruned).flatMap Block.references := List.flatMap_map ..
  show selection.judgeAll (blocks.map Block.outline) = (selection.judgeAll blocks).map JudgedBlock.outline
  simp only [judgeAll, hPruned]
  rw [hImported]
  generalize blocks.map Block.pruned = pruned
  rw [List.map_map, List.map_map]
  rfl

theorem OpcodeTable.ofBlocks_outline (blocks : List JudgedBlock) :
    OpcodeTable.ofBlocks (blocks.map JudgedBlock.outline) = OpcodeTable.ofBlocks blocks := by
  simp only [ofBlocks, List.filter_map, List.map_map]
  rfl

end Unbundle
