/-
  Unbundle.Proofs.Dangling — which imports lead to no file.

  Being imported is all that a block without a command id needs for a file of its own. So a type that a file imports has
  a file if it has a block, unless that block never gets one: its name is blacklisted, or it has a command id and its
  name looks obfuscated. All other imports without a file are of types that the schema does not have.

  - `isEmitted_judge_of_imported`: the verdict on a block that some block imports.
  - `exists_file_iff`: what stands behind an import.
  - `imports_lead_to_files`: the imports of all emitted blocks, and the import lines in their files.
-/

import Unbundle.Proofs.Verdicts

namespace Unbundle

namespace Selection

/-- The block gets no file even if it is imported. -/
def Withholds (s : Selection) (b : Block) : Prop :=
  b.name ∈ s.blacklist ∨ (b.commandId ≠ 0 ∧ s.looksObfuscated b.name = true)

theorem isEmitted_judge_of_imported {s : Selection} {imported : List String} {b : Block} (h : b.name ∈ imported) :
    ((s.judge imported b).isEmitted = true ↔ ¬ s.Withholds b) ∧ s.judge imported b ≠ .unreferenced := by
  unfold judge Withholds
  by_cases hListed : b.name ∈ s.blacklist
  · simp [hListed, Eligibility.isEmitted]
  by_cases hId : b.commandId = 0
  · simp [hListed, hId, h, Block.hasCommandId, Eligibility.isEmitted]
  · by_cases hObfuscated : s.looksObfuscated b.name = true
    · simp [hListed, hId, hObfuscated, Block.hasCommandId, Eligibility.isEmitted]
    · simp [hListed, hId, hObfuscated, Block.hasCommandId, Eligibility.isEmitted]

end Selection

namespace Splitter

variable {s : Splitter} {g : Glossary} {schema : String} {o : SplitResult}

/-- The blocks of a split are those of the schema with clear names, each at its place. -/
theorem exists_schema (hRun : (s.run g schema).value = .ok o) :
    ∃ parsed, (Schema.ofLines s.vocabulary o.clearedLines).value = .ok parsed ∧
      o.blocks = (s.selection.resolve parsed.blocks).value := by
  obtain ⟨parsed, hParsed, rfl⟩ := run_eq_ok_iff.mp hRun
  rw [value_layOut]
  exact ⟨parsed, hParsed, rfl⟩

/-- A block that is imported has a file unless it is withheld, whatever other blocks have its name. -/
theorem exists_file_iff {blocks : List Block} (hBlocks : o.blocks = (s.selection.resolve blocks).value)
    {importer : JudgedBlock} (hImporter : importer ∈ o.blocks) {i : Nat} {b : Block} (hBlock : blocks[i]? = some b)
    (hName : b.name ∈ importer.imports) : ∃ judged, o.blocks[i]? = some judged ∧ judged.block = b.pruned ∧
      judged.eligibility ≠ .unreferenced ∧ (judged.isEmitted = true ↔ ¬ s.selection.Withholds b) := by
  have hImported : b.name ∈ Selection.importedNames blocks := by
    obtain ⟨j, hj⟩ := List.mem_iff_getElem?.mp hImporter
    rw [hBlocks] at hj
    exact (Selection.mem_importedNames_iff s.selection blocks).mpr ⟨j, importer, hj, hName⟩
  have hJudged : o.blocks[i]? = some ⟨b.pruned, s.selection.judge (Selection.importedNames blocks) b.pruned⟩ := by
    rw [hBlocks, Selection.getElem?_resolve, hBlock, Option.map_some]
  obtain ⟨hEmitted, hReferenced⟩ :=
    Selection.isEmitted_judge_of_imported (s := s.selection) (b := b.pruned) hImported
  exact ⟨_, hJudged, rfl, hReferenced, hEmitted⟩

/-- An emitted block imports no block that was judged to be unreferenced, and an import line for such a block stands in
    no file, but for lines of the header, comments and lines of blocks that read so. -/
theorem imports_no_unreferenced (hRun : (s.run g schema).value = .ok o) {importer judged : JudgedBlock}
    (hImporter : importer ∈ o.blocks) (hJudged : judged ∈ o.blocks) (hVerdict : judged.eligibility = .unreferenced) :
    judged.block.name ∉ importer.imports ∧
      (Layout.importLine judged.block.name ∈ Text.lines (s.layout.render o.header importer).contents →
        Layout.importLine judged.block.name ∈ Text.lines (Text.unlines o.header) ++
          s.layout.otherLines importer.block) := by
  have hNot : judged.block.name ∉ importer.imports := by
    intro hName
    obtain ⟨parsed, _, hBlocks⟩ := exists_schema hRun
    obtain ⟨i, hi⟩ := List.mem_iff_getElem?.mp hJudged
    have hPlace := hi
    rw [hBlocks, Selection.getElem?_resolve, Option.map_eq_some_iff] at hPlace
    obtain ⟨b, hBlock, rfl⟩ := hPlace
    obtain ⟨judged, hSame, _, hReferenced, _⟩ := exists_file_iff hBlocks hImporter hBlock hName
    obtain rfl := Option.some.inj (hi.symm.trans hSame)
    exact hReferenced hVerdict
  refine ⟨hNot, fun hLine => ?_⟩
  rw [Layout.mem_contents_iff _ _ (isIdentifier_of_mem_imports hRun hImporter) (Layout.importLine_ne_empty _),
    Layout.importLine_mem_declarations_iff, or_iff_left hNot] at hLine
  exact List.mem_append.mpr hLine

/-- What an emitted block imports has no block in the schema, or every block of its name has a file, but for blocks that
    are blacklisted or have a command id and a name that looks obfuscated. A name looks so if the library finds it by
    the pattern; with the readers of this project, the pattern matches a part of it. So no emitted block, and no file by
    the imports of its block, imports a block that was dropped for being unreferenced. -/
theorem imports_lead_to_files (hRun : (s.run g schema).value = .ok o) :
    (∃ parsed, (Schema.ofLines s.vocabulary o.clearedLines).value = .ok parsed ∧
      ∀ importer ∈ o.emitted, ∀ name ∈ importer.imports, ∀ (i : Nat) (b : Block), parsed.blocks[i]? = some b →
        b.name = name → ∃ judged, o.blocks[i]? = some judged ∧ judged.block = b.pruned ∧
          (judged.isEmitted = true ↔ ¬ s.selection.Withholds b) ∧
          (judged.isEmitted = true → ∃ file ∈ o.files, file.blockName = name ∧ file.fileName = name ++ ".proto")) ∧
    (∀ name, s.selection.looksObfuscated name = true ↔ s.selection.Suspects name) ∧
    (∀ e, s.selection.Reads e → ∀ name, s.selection.Suspects name ↔ e.MatchesPart name) ∧
    ∀ file ∈ o.files, ∃ importer ∈ o.emitted, file = s.layout.render o.header importer ∧
      ∀ judged ∈ o.blocks, judged.eligibility = .unreferenced → judged.block.name ∉ importer.imports ∧
        (Layout.importLine judged.block.name ∈ Text.lines file.contents →
          Layout.importLine judged.block.name ∈ Text.lines (Text.unlines o.header) ++
            s.layout.otherLines importer.block) := by
  refine ⟨?_, fun _ => Selection.looksObfuscated_iff, fun _ hReads _ => Selection.suspects_iff_of_reads hReads, ?_⟩
  · obtain ⟨parsed, hParsed, hBlocks⟩ := exists_schema hRun
    refine ⟨parsed, hParsed, ?_⟩
    rintro importer hImporter name hName i b hBlock rfl
    obtain ⟨judged, hJudged, hPruned, _, hEmitted⟩ :=
      exists_file_iff hBlocks (List.mem_of_mem_filter hImporter) hBlock hName
    refine ⟨judged, hJudged, hPruned, hEmitted, fun hHasFile => ?_⟩
    have hFile := (mem_files_iff hRun).mpr ⟨judged, List.mem_of_getElem? hJudged, hHasFile, rfl⟩
    have hOwnName : judged.block.name = b.name := by rw [hPruned]; rfl
    exact ⟨_, hFile, hOwnName, congrArg (· ++ ".proto") hOwnName⟩
  · intro file hFile
    obtain ⟨importer, hImporter, hEmitted, rfl⟩ := (mem_files_iff hRun).mp hFile
    refine ⟨importer, List.mem_filter.mpr ⟨hImporter, hEmitted⟩, rfl, fun judged hJudged hVerdict => ?_⟩
    exact imports_no_unreferenced hRun hImporter hJudged hVerdict

/-- A command with fields of a type that has a block, of one that looks obfuscated, and of one that has none. -/
def hub : Block :=
  ⟨"Hub", 7, ["message Hub \x7b", "  Leaf leaf = 1;", "  ABC abc = 2;", "  Gone gone = 3;", "\x7d"],
    ["Leaf", "ABC", "Gone"], []⟩

/-- A block with a command id and a name of capital letters. -/
def unnamed : Block := ⟨"ABC", 8, ["message ABC \x7b", "\x7d"], [], []⟩

def hubLines : List String :=
  "// CmdId: 7" :: hub.body ++ (Selection.leaf.body ++ "// CmdId: 8" :: unnamed.body)

theorem resolve_hub : (default.selection.resolve [hub, Selection.leaf, unnamed]).value =
    [⟨hub, .command⟩, ⟨Selection.leaf, .dependency⟩, ⟨unnamed, .obfuscated⟩] := by
  decide +kernel

/-- Of its three imports one leads to a file, and one to a block that is withheld. -/
theorem hub_leads_to_leaf : ∃ o : SplitResult, (default.run .empty (Text.unlines hubLines)).value = .ok o ∧
    ⟨hub, .command⟩ ∈ o.emitted ∧ (∃ file ∈ o.files, file.fileName = "Leaf.proto") ∧
    ∃ judged, o.blocks[2]? = some judged ∧ judged.block.name = "ABC" ∧ judged.isEmitted ≠ true := by
  have hParsed : (Schema.ofLines default.vocabulary hubLines).value = .ok ⟨[], [hub, Selection.leaf, unnamed]⟩ := rfl
  have hLines : (default.clearedLines .empty (Text.unlines hubLines)).map ClearedLine.text = hubLines := by
    rw [(clearedLines_empty _ _).1, Text.lines_unlines_of_isLine (by decide)]
  have hRun := run_eq_ok_iff.mpr ⟨_, by rw [hLines]; exact hParsed, rfl⟩
  rw [value_layOut, hLines, resolve_hub] at hRun
  obtain ⟨⟨parsed, hAgain, hLead⟩, _⟩ := imports_lead_to_files hRun
  obtain rfl := Except.ok.inj (hParsed.symm.trans hAgain)
  have hImporter : ⟨hub, .command⟩ ∈ [⟨hub, .command⟩, ⟨Selection.leaf, .dependency⟩, ⟨unnamed, .obfuscated⟩].filter
      JudgedBlock.isEmitted := List.mem_cons_self
  obtain ⟨leaf, hLeaf, _, _, hFile⟩ := hLead _ hImporter "Leaf" (by decide) 1 _ rfl rfl
  obtain ⟨judged, hJudged, hBlock, hEmitted, _⟩ := hLead _ hImporter "ABC" (by decide) 2 _ rfl rfl
  obtain rfl := Option.some.inj hLeaf
  obtain ⟨file, hFound, _, hName⟩ := hFile rfl
  have hWithheld : default.selection.Withholds unnamed := .inr (by decide +kernel)
  exact ⟨_, hRun, hImporter, ⟨file, hFound, hName⟩, judged, hJudged, congrArg Block.name hBlock,
    fun h => hEmitted.mp h hWithheld⟩

end Splitter

end Unbundle
