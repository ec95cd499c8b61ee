/-
  Unbundle.Proofs.Imports — which imports stand in the file of a block, and how often.

  An import line gets into a file in three ways: as a line of the shared header, as an import of the block, and as a
  comment or a line of the block that happens to be one. The imports of a block are distinct, so they add one line at
  most; the header is written as it is, whether or not it holds that line too.

  - `mem_imports_iff`: a block imports what its lines name, less its own levels. Its own name is no exception.
  - `count_contents`: a line stands in a file as often as among the header and the imports, and among the other lines.
  - `imports_itself_iff`: a file imports itself if its block uses its own type.
  - `imports_declared_once`: one import line for each type, or two if the header has it already.
-/

import Mathlib.Data.List.Count
import Unbundle.Proofs.Distinct
import Unbundle.Proofs.Names

namespace Unbundle

open Line Text

/-! ## The imports of a block -/

/-- A line of the block names the type, and no level inside the block has its name. -/
def Block.Uses (v : Vocabulary) (b : Block) (name : String) : Prop :=
  (∃ line ∈ b.body, Line.reference? v line = some name) ∧ ¬ ∃ line ∈ b.body.tail, Opens v line name

instance (v : Vocabulary) (b : Block) (name : String) : Decidable (b.Uses v name) :=
  inferInstanceAs (Decidable (_ ∧ _))

namespace Share.Reads

variable {v : Vocabulary} {p : Share} {b : Block}

/-- The opening line names no type, and neither does a line that is left out of the block. -/
theorem mem_references_iff (hReads : p.Reads v b) (hFits : p.Fits v) {name : String} :
    name ∈ b.references ↔ ∃ line ∈ b.body, Line.reference? v line = some name := by
  rw [hReads.references_eq, List.mem_filterMap, hReads.body_eq_cons]
  constructor
  · rintro ⟨line, hLine, hNamed⟩
    have hKept : ¬ Announces v line := by
      intro h
      cases hNamed.symm.trans (reference?_of_announces h)
    exact ⟨line, List.mem_cons_of_mem _ (List.mem_filter.mpr ⟨hLine, decide_eq_true hKept⟩), hNamed⟩
  · rintro ⟨line, hLine, hNamed⟩
    rcases List.mem_cons.mp hLine with rfl | hLine
    · cases hNamed.symm.trans (reference?_of_opens hFits.1)
    · exact ⟨line, List.mem_of_mem_filter hLine, hNamed⟩

theorem mem_nested_iff_opens (hReads : p.Reads v b) {name : String} :
    name ∈ b.nested ↔ ∃ line ∈ b.body.tail, Opens v line name := by
  rw [hReads.mem_nested_iff, hReads.body_eq_cons, List.tail_cons]
  constructor
  · rintro ⟨line, hLine, hOpens⟩
    exact ⟨line, List.mem_filter.mpr ⟨hLine, decide_eq_true hOpens.1⟩, hOpens⟩
  · rintro ⟨line, hLine, hOpens⟩
    exact ⟨line, List.mem_of_mem_filter hLine, hOpens⟩

end Share.Reads

namespace Splitter

variable {s : Splitter} {g : Glossary} {schema : String} {o : SplitResult}

/-- A block imports the types it uses, whether or not its own is among them. -/
theorem mem_imports_iff (hRun : (s.run g schema).value = .ok o) {judged : JudgedBlock} (h : judged ∈ o.blocks)
    {name : String} : name ∈ judged.imports ↔ judged.block.Uses s.vocabulary name := by
  obtain ⟨p, b, hFits, hReads, hBlock⟩ := exists_share_of_mem_blocks hRun h
  have hBody : judged.block.body = b.body := by rw [hBlock]; rfl
  unfold JudgedBlock.imports Block.Uses
  rw [hBody, ← hReads.mem_references_iff hFits, ← hReads.mem_nested_iff_opens, hBlock, Block.pruned,
    List.mem_eraseDups, List.mem_filter]
  simp

end Splitter

theorem Splitter.nodup_imports {s : Splitter} {g : Glossary} {schema : String} {o : SplitResult}
    (hRun : (s.run g schema).value = .ok o) {judged : JudgedBlock} (h : judged ∈ o.blocks) :
    judged.imports.Nodup := by
  obtain ⟨_, b, _, _, hBlock⟩ := exists_share_of_mem_blocks hRun h
  rw [JudgedBlock.imports, hBlock]
  exact nodup_eraseDups _

theorem Splitter.isIdentifier_of_mem_imports {s : Splitter} {g : Glossary} {schema : String} {o : SplitResult}
    (hRun : (s.run g schema).value = .ok o) {judged : JudgedBlock} (h : judged ∈ o.blocks) :
    ∀ name ∈ judged.imports, IsIdentifier name := by
  intro name hName
  exact ((hasIdentifiers_of_mem_blocks hRun h).references name hName).1

/-! ## The lines of a file -/

namespace Layout

theorem importLine_injective : Function.Injective importLine := by
  intro name other h
  unfold importLine Block.fileNameOf at h
  exact (String.append_left_inj _).mp ((String.append_right_inj _).mp ((String.append_left_inj _).mp h))

theorem importLine_ne_empty (name : String) : importLine name ≠ "" := by
  intro h
  have hLength := congrArg String.length h
  simp [importLine] at hLength

/-- What is read of a file of its header and its imports. -/
def declarations (header : List String) (judged : JudgedBlock) : List String :=
  Text.lines (Text.unlines header) ++ judged.imports.map importLine

/-- What is read of it besides: its comments and the lines of the block. -/
def otherLines (l : Layout) (b : Block) : List String := Text.lines (Text.unlines (l.provenanceLines ++ l.bodyLines b))

/-- The declarations of a file and its other lines are all that it holds, but for the empty lines between its parts. -/
theorem count_contents (l : Layout) (header : List String) {judged : JudgedBlock}
    (hNames : ∀ name ∈ judged.imports, IsIdentifier name) {line : String} (hLine : line ≠ "") :
    (Text.lines (l.render header judged).contents).count line =
      (declarations header judged).count line + (l.otherLines judged.block).count line := by
  have hImports : Text.lines (Text.unlines (judged.imports.map importLine)) = judged.imports.map importLine := by
    apply lines_unlines_of_isLine
    intro written hWritten
    obtain ⟨name, hName, rfl⟩ := List.mem_map.mp hWritten
    exact isLine_importLine (hNames name hName)
  have hEmpty : (Text.lines (Text.unlines [""])).count line = 0 := by
    rw [lines_unlines_of_isLine (by decide), List.count_singleton, if_neg (by simpa using hLine.symm)]
  have hFile : (l.render header judged).contents = Text.unlines (l.provenanceLines ++ (header ++ [""]) ++
      (judged.imports.map importLine ++ [""]) ++ l.bodyLines judged.block) := rfl
  rw [hFile, declarations, otherLines]
  simp only [lines_unlines_append, List.count_append, hImports, hEmpty]
  omega

theorem mem_contents_iff (l : Layout) (header : List String) {judged : JudgedBlock}
    (hNames : ∀ name ∈ judged.imports, IsIdentifier name) {line : String} (hLine : line ≠ "") :
    line ∈ Text.lines (l.render header judged).contents ↔
      line ∈ declarations header judged ∨ line ∈ l.otherLines judged.block := by
  simp only [← List.count_pos_iff, count_contents l header hNames hLine]
  omega

theorem importLine_mem_declarations_iff {header : List String} {judged : JudgedBlock} {x : String} :
    importLine x ∈ declarations header judged ↔
      importLine x ∈ Text.lines (Text.unlines header) ∨ x ∈ judged.imports := by
  rw [declarations, List.mem_append, List.mem_map_of_injective importLine_injective]

/-- The imports of a block add one line for each type. -/
theorem count_declarations {header : List String} {judged : JudgedBlock} (hDistinct : judged.imports.Nodup)
    (x : String) : (declarations header judged).count (importLine x) =
      (Text.lines (Text.unlines header)).count (importLine x) + if x ∈ judged.imports then 1 else 0 := by
  rw [declarations, List.count_append, List.count_map_of_injective _ _ importLine_injective, hDistinct.count]

end Layout

namespace Splitter

variable {s : Splitter} {g : Glossary} {schema : String} {o : SplitResult}

/-! ## Imports of oneself -/

/-- A block imports itself if a line of it names its own type and no level inside it has that name. So does its file,
    unless the import line stands there anyway. -/
theorem imports_itself_iff (hRun : (s.run g schema).value = .ok o) :
    (∀ judged ∈ o.blocks, judged.block.name ∈ judged.imports ↔ judged.block.Uses s.vocabulary judged.block.name) ∧
    ∀ file ∈ o.files, ∃ judged ∈ o.blocks, file = s.layout.render o.header judged ∧
      file.fileName = judged.block.name ++ ".proto" ∧
      (Layout.importLine judged.block.name ∈ Text.lines file.contents ↔
        judged.block.Uses s.vocabulary judged.block.name ∨
          Layout.importLine judged.block.name ∈ Text.lines (Text.unlines o.header) ++
            s.layout.otherLines judged.block) := by
  constructor
  · intro judged hJudged
    exact mem_imports_iff hRun hJudged
  · intro file hFile
    obtain ⟨judged, hJudged, _, rfl⟩ := (mem_files_iff hRun).mp hFile
    refine ⟨judged, hJudged, rfl, rfl, ?_⟩
    rw [Layout.mem_contents_iff _ _ (isIdentifier_of_mem_imports hRun hJudged) (Layout.importLine_ne_empty _),
      Layout.importLine_mem_declarations_iff, mem_imports_iff hRun hJudged, List.mem_append, or_assoc, or_left_comm]

/-- A schema of one block with a command id, split without clear names. -/
theorem run_command {lines header : List String} {b : Block} (hLines : ∀ line ∈ lines, IsLine line.toList)
    (hParsed : (Schema.ofLines default.vocabulary lines).value = .ok ⟨header, [b]⟩)
    (hJudged : (default.selection.resolve [b]).value = [⟨b.pruned, .command⟩]) :
    ∃ o : SplitResult, (default.run .empty (Text.unlines lines)).value = .ok o ∧ o.header = header ∧
      (∀ judged, judged ∈ o.blocks ↔ judged = ⟨b.pruned, .command⟩) ∧
      Layout.default.render header ⟨b.pruned, .command⟩ ∈ o.files := by
  obtain ⟨o, hRun, hHeader, hBlocks⟩ := exists_run_unlines hLines hParsed
  have hOwnHeader : o.header = header := hHeader.trans (List.append_nil header)
  have hOneBlock : o.blocks = [⟨b.pruned, .command⟩] := hBlocks.trans hJudged
  refine ⟨o, hRun, hOwnHeader, ?_, ?_⟩
  · intro judged
    rw [hOneBlock, List.mem_singleton]
  · rw [files_eq hRun, SplitResult.emitted, hOneBlock, hOwnHeader]
    exact List.mem_singleton_self _

/-- A type that names itself. -/
def node : Block := ⟨"Node", 7, ["message Node \x7b", "  Node next = 1;", "\x7d"], ["Node"], []⟩

def nodeText : String := Text.unlines ("// CmdId: 7" :: node.body)

theorem run_node : ∃ o : SplitResult, (default.run .empty nodeText).value = .ok o ∧
    (∀ judged, judged ∈ o.blocks ↔ judged = ⟨node, .command⟩) ∧
    Layout.default.render [] ⟨node, .command⟩ ∈ o.files := by
  have hParsed : (Schema.ofLines default.vocabulary ("// CmdId: 7" :: node.body)).value = .ok ⟨[], [node]⟩ := rfl
  obtain ⟨o, hRun, _, hBlocks, hFile⟩ := run_command (by decide) hParsed (by decide +kernel)
  exact ⟨o, hRun, hBlocks, hFile⟩

/-- A block and a file that import themselves. -/
theorem node_imports_itself : ∃ o : SplitResult, (default.run .empty nodeText).value = .ok o ∧
    node.Uses default.vocabulary "Node" ∧ (∃ judged ∈ o.blocks, judged.block.name = "Node" ∧ "Node" ∈ judged.imports) ∧
    ∃ file ∈ o.files, file.fileName = "Node.proto" ∧ "import \"Node.proto\";" ∈ Text.lines file.contents := by
  obtain ⟨o, hRun, hBlocks, hFile⟩ := run_node
  have hUses : node.Uses default.vocabulary "Node" := by decide
  have hBlock : ⟨node, .command⟩ ∈ o.blocks := (hBlocks _).mpr rfl
  obtain ⟨hOwn, hOwnLine⟩ := imports_itself_iff hRun
  obtain ⟨judged, hJudged, _, hName, hLine⟩ := hOwnLine _ hFile
  obtain rfl := (hBlocks judged).mp hJudged
  exact ⟨o, hRun, hUses, ⟨_, hBlock, rfl, (hOwn _ hBlock).mpr hUses⟩, _, hFile, hName, hLine.mpr (.inl hUses)⟩

/-- Not every block leaves itself out of its imports. -/
theorem not_importsOthersOnly : ¬ ∀ (s : Splitter) (g : Glossary) (schema : String) (o : SplitResult),
    (s.run g schema).value = .ok o → ∀ judged ∈ o.blocks, judged.block.name ∉ judged.imports := by
  intro h
  obtain ⟨o, hRun, hBlocks, _⟩ := run_node
  exact h default .empty nodeText o hRun ⟨node, .command⟩ ((hBlocks _).mpr rfl) (List.mem_singleton_self _)

/-! ## Imports in the header -/

/-- If no import line stands twice in the header, the header and the imports of a file have each import line at most
    once, but twice if it stands in the header and the block imports the type. The file has it no further time, except
    as a comment or a line of the block. -/
theorem imports_declared_once (hRun : (s.run g schema).value = .ok o)
    (hHeader : ∀ x, (Text.lines (Text.unlines o.header)).count (Layout.importLine x) ≤ 1) :
    ∀ file ∈ o.files, ∃ judged ∈ o.blocks, judged.isEmitted = true ∧ file = s.layout.render o.header judged ∧ ∀ x,
      (Text.lines file.contents).count (Layout.importLine x) =
        (Layout.declarations o.header judged).count (Layout.importLine x) +
          (s.layout.otherLines judged.block).count (Layout.importLine x) ∧
      (Layout.declarations o.header judged).count (Layout.importLine x) ≤ 2 ∧
      ((Layout.declarations o.header judged).count (Layout.importLine x) = 2 ↔
        Layout.importLine x ∈ Text.lines (Text.unlines o.header) ∧ x ∈ judged.imports) := by
  intro file hFile
  obtain ⟨judged, hJudged, hEmitted, rfl⟩ := (mem_files_iff hRun).mp hFile
  refine ⟨judged, hJudged, hEmitted, rfl, fun x => ?_⟩
  refine ⟨Layout.count_contents _ _ (isIdentifier_of_mem_imports hRun hJudged) (Layout.importLine_ne_empty x), ?_⟩
  have hAtMost := hHeader x
  have hInHeader : Layout.importLine x ∈ Text.lines (Text.unlines o.header) ↔
      0 < (Text.lines (Text.unlines o.header)).count (Layout.importLine x) := List.count_pos_iff.symm
  rw [Layout.count_declarations (nodup_imports hRun hJudged), hInHeader]
  -- the header has the line once at most, and the imports add one
  by_cases hImport : x ∈ judged.imports
  · simp only [hImport, if_true, and_true]
    omega
  · simp only [hImport, if_false, and_false, iff_false]
    omega

/-- A block that uses two types, one of them on two lines. -/
def holder : Block := ⟨"Holder", 7, ["message Holder \x7b", "  Leaf leaf = 1;", "  Node first = 2;",
  "  Node second = 3;", "\x7d"], ["Leaf", "Node", "Node"], []⟩

/-- A header that imports the other one. -/
def leafHeader : List String := ["import \"Leaf.proto\";"]

def holderText : String := Text.unlines (leafHeader ++ "// CmdId: 7" :: holder.body)

def holderFile : BlockFile := Layout.default.render leafHeader ⟨holder.pruned, .command⟩

theorem lines_leafHeader : Text.lines (Text.unlines leafHeader) = leafHeader :=
  lines_unlines_of_isLine (by decide)

theorem run_holder : ∃ o : SplitResult, (default.run .empty holderText).value = .ok o ∧
    (∀ x, (Text.lines (Text.unlines o.header)).count (Layout.importLine x) ≤ 1) ∧ o.header = leafHeader ∧
    (∀ judged, judged ∈ o.blocks ↔ judged = ⟨holder.pruned, .command⟩) ∧ holderFile ∈ o.files := by
  have hLines : ∀ line ∈ leafHeader ++ "// CmdId: 7" :: holder.body, IsLine line.toList := by decide
  have hParsed : (Schema.ofLines default.vocabulary (leafHeader ++ "// CmdId: 7" :: holder.body)).value =
      .ok ⟨leafHeader, [holder]⟩ := rfl
  obtain ⟨o, hRun, hHeader, hBlocks, hFile⟩ := run_command hLines hParsed (by decide +kernel)
  refine ⟨o, hRun, fun x => ?_, hHeader, hBlocks, hFile⟩
  rw [hHeader, lines_leafHeader]
  exact List.count_le_length

/-- Two lines of the block need one import, and the import in the header does not spare the block its own. -/
theorem holder_declares : ∃ o : SplitResult, (default.run .empty holderText).value = .ok o ∧
    (∀ x, (Text.lines (Text.unlines o.header)).count (Layout.importLine x) ≤ 1) ∧ ∃ file ∈ o.files,
      (Text.lines file.contents).count "import \"Node.proto\";" = 1 ∧
      (Text.lines file.contents).count "import \"Leaf.proto\";" = 2 := by
  obtain ⟨o, hRun, hOnce, hHeader, hBlocks, hFile⟩ := run_holder
  obtain ⟨judged, hJudged, _, _, hCount⟩ := imports_declared_once hRun hOnce _ hFile
  obtain rfl := (hBlocks judged).mp hJudged
  obtain ⟨hNode, _, _⟩ := hCount "Node"
  obtain ⟨hLeaf, _, hTwice⟩ := hCount "Leaf"
  have hOther : default.layout.otherLines holder.pruned =
      default.layout.provenanceLines ++ default.layout.bodyLines holder.pruned := lines_unlines_of_isLine (by decide)
  rw [hOther] at hNode hLeaf
  rw [hHeader, lines_leafHeader] at hTwice
  refine ⟨o, hRun, hOnce, _, hFile, hNode.trans ?_, hLeaf.trans ?_⟩
  · rw [hHeader, Layout.declarations, lines_leafHeader]
    decide
  · rw [hHeader, hTwice.mpr (by decide)]
    decide

/-- An import line may stand twice in a file although it stands once in the header. -/
theorem not_importsOnce : ¬ ∀ (s : Splitter) (g : Glossary) (schema : String) (o : SplitResult),
    (s.run g schema).value = .ok o →
    (∀ x, (Text.lines (Text.unlines o.header)).count (Layout.importLine x) ≤ 1) →
    ∀ file ∈ o.files, ∀ x, (Text.lines file.contents).count (Layout.importLine x) ≤ 1 := by
  intro h
  obtain ⟨o, hRun, hOnce, _, _, hFile⟩ := run_holder
  have hLeaf := h default .empty holderText o hRun hOnce _ hFile "Leaf"
  have hRead : Text.lines holderFile.contents = Layout.default.blockLines leafHeader holder.pruned :=
    lines_unlines_of_isLine (by decide)
  rw [hRead] at hLeaf
  exact absurd hLeaf (by decide)

end Splitter

end Unbundle
