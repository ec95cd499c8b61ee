/-
  Unbundle.Proofs.Capture — what the enum of a command id meets in the file of its block.

  The enum always has the same name, and the lines of a block are written as they are. Nothing compares the two, so a
  schema with that name in it gets a second level of the name beside the enum, or the enum in place of a type that the
  file imports.

  - `mem_nested_iff`: the levels inside a block are those that its lines behind the opening line open.
  - `opens_header_iff`, `opens_frontLines_iff`: no line in front of a block opens a level, but for lines set up so.
  - `id_enum_meets`: when the name is imported, when a level inside the block has it, and when any line of the file
    besides the enum opens a level of that name.
  - `not_standsAlone`: that does happen.
-/

import Unbundle.Proofs.Imports

namespace Unbundle

open Line Text

/-! ## Lines in front of a block -/

namespace Line

variable {suppressed : List String}

theorem not_opens_comment (comment name : String) : ¬ Opens (.protobuf suppressed) ("// " ++ comment) name := by
  intro h
  have hHead : head? ("// " ++ comment) = some '/' := head?_comment (String.toList_append ..)
  exact absurd h.head?_mem (by rw [hHead]; decide)

end Line

namespace Layout

variable {suppressed : List String}

/-- The lines of a file in front of those of the block. -/
def frontLines (l : Layout) (header references : List String) : List String :=
  l.provenanceLines ++ (header ++ [""]) ++ (references.map importLine ++ [""])

/-- In front of a block only a line of the header may open a level. -/
theorem opens_frontLines_iff (l : Layout) (header references : List String) (name : String) :
    (∃ line ∈ l.frontLines header references, Opens (.protobuf suppressed) line name) ↔
      ∃ line ∈ header, Opens (.protobuf suppressed) line name := by
  have hEmpty : ¬ Opens (.protobuf suppressed) "" name := fun h => idle_empty.2.1 (.inl ⟨name, h⟩)
  constructor
  · rintro ⟨line, hLine, hOpens⟩
    simp only [frontLines, provenanceLines, List.mem_append, List.mem_map, List.mem_singleton] at hLine
    rcases hLine with ((⟨comment, _, rfl⟩ | rfl) | hHeader | rfl) | ⟨imported, _, rfl⟩ | rfl
    · exact absurd hOpens (not_opens_comment comment name)
    · exact absurd hOpens hEmpty
    · exact ⟨line, hHeader, hOpens⟩
    · exact absurd hOpens hEmpty
    · exact absurd (isHeader_importLine imported) hOpens.not_isHeader
    · exact absurd hOpens hEmpty
  · rintro ⟨line, hLine, hOpens⟩
    refine ⟨line, ?_, hOpens⟩
    simp only [frontLines, List.mem_append]
    exact .inl (.inr (.inl hLine))

end Layout

namespace Splitter

variable {s : Splitter} {g : Glossary} {schema : String} {o : SplitResult}

/-- Header lines that a schema brings open no level. -/
theorem opens_header_iff (hStandard : s.IsStandard) (hRun : (s.run g schema).value = .ok o) (name : String) :
    (∃ line ∈ o.header, Opens s.vocabulary line name) ↔
      ∃ line ∈ s.leadingHeader ++ s.trailingHeader, Opens s.vocabulary line name := by
  obtain ⟨suppressed, hVocabulary⟩ := hStandard
  obtain ⟨parsed, hParsed, rfl⟩ := run_eq_ok_iff.mp hRun
  have hHeader := (Scan.exists_share hParsed).1
  rw [value_layOut]
  rw [hVocabulary] at hHeader ⊢
  constructor
  · rintro ⟨line, hLine, hOpens⟩
    rcases List.mem_append.mp hLine with hLine | hLine
    · rcases List.mem_append.mp hLine with hLine | hLine
      · exact ⟨line, List.mem_append_left _ hLine, hOpens⟩
      · exact absurd (hHeader line hLine) hOpens.not_isHeader
    · exact ⟨line, List.mem_append_right _ hLine, hOpens⟩
  · rintro ⟨line, hLine, hOpens⟩
    refine ⟨line, ?_, hOpens⟩
    rcases List.mem_append.mp hLine with hLine | hLine
    · exact List.mem_append_left _ (List.mem_append_left _ hLine)
    · exact List.mem_append_right _ hLine

theorem mem_nested_iff (hRun : (s.run g schema).value = .ok o) {judged : JudgedBlock} (h : judged ∈ o.blocks)
    {name : String} : name ∈ judged.block.nested ↔ ∃ line ∈ judged.block.body.tail, Opens s.vocabulary line name := by
  obtain ⟨p, b, _, hReads, hBlock⟩ := exists_share_of_mem_blocks hRun h
  rw [hBlock]
  exact hReads.mem_nested_iff_opens

/-- The opening line of a block opens a level of the block's name. -/
theorem exists_opening (hRun : (s.run g schema).value = .ok o) {judged : JudgedBlock} (h : judged ∈ o.blocks) :
    ∃ opening rest, judged.block.body = opening :: rest ∧ Opens s.vocabulary opening judged.block.name := by
  obtain ⟨p, b, hFits, hReads, hBlock⟩ := exists_share_of_mem_blocks hRun h
  rw [hBlock]
  have hName : b.pruned.name = p.name := hReads.name_eq
  exact ⟨_, _, hReads.body_eq_cons, hName ▸ hFits.1⟩

/-! ## The enum in its file -/

/-- Neither a type that the block imports nor a level inside it has the name of the enum. -/
def EnumStandsAlone (judged : JudgedBlock) : Prop :=
  Layout.commandIdEnum ∉ judged.imports ∧ Layout.commandIdEnum ∉ judged.block.nested

/-- No line behind the opening one names the type of the enum or opens a level of its name. -/
def LeavesEnumAlone (v : Vocabulary) (b : Block) : Prop :=
  ∀ line ∈ b.body.tail, Line.reference? v line ≠ some Layout.commandIdEnum ∧ ¬ Opens v line Layout.commandIdEnum

theorem enumStandsAlone_iff (hRun : (s.run g schema).value = .ok o) {judged : JudgedBlock} (h : judged ∈ o.blocks) :
    EnumStandsAlone judged ↔ LeavesEnumAlone s.vocabulary judged.block := by
  obtain ⟨opening, rest, hBody, hOpening⟩ := exists_opening hRun h
  rw [EnumStandsAlone, mem_imports_iff hRun h, mem_nested_iff hRun h, Block.Uses, LeavesEnumAlone, hBody,
    List.tail_cons]
  constructor
  · rintro ⟨hUses, hNested⟩ line hLine
    refine ⟨fun hNamed => hUses ⟨⟨line, List.mem_cons_of_mem _ hLine, hNamed⟩, hNested⟩, fun hOpens => ?_⟩
    exact hNested ⟨line, hLine, hOpens⟩
  · intro hAlone
    refine ⟨?_, fun ⟨line, hLine, hOpens⟩ => (hAlone line hLine).2 hOpens⟩
    rintro ⟨⟨line, hLine, hNamed⟩, _⟩
    rcases List.mem_cons.mp hLine with rfl | hLine
    · cases hNamed.symm.trans (reference?_of_opens hOpening)
    · exact (hAlone line hLine).1 hNamed

/-- Around the enum a line of the file opens a level of any name if the block or a level inside it has that name, or if
    the header is set up with such a line. -/
theorem opens_around_enum_iff (hStandard : s.IsStandard) (hRun : (s.run g schema).value = .ok o) {judged : JudgedBlock}
    (h : judged ∈ o.blocks) (name : String) :
    (∃ line ∈ s.layout.frontLines o.header judged.imports ++ judged.block.body, Opens s.vocabulary line name) ↔
      judged.block.name = name ∨ name ∈ judged.block.nested ∨
        ∃ line ∈ s.leadingHeader ++ s.trailingHeader, Opens s.vocabulary line name := by
  obtain ⟨opening, rest, hBody, hOpening⟩ := exists_opening hRun h
  rw [mem_nested_iff hRun h, ← opens_header_iff hStandard hRun, hBody, List.tail_cons]
  obtain ⟨suppressed, hVocabulary⟩ := hStandard
  rw [hVocabulary] at hOpening ⊢
  rw [← Layout.opens_frontLines_iff s.layout o.header judged.imports name]
  constructor
  · rintro ⟨line, hLine, hOpens⟩
    rcases List.mem_append.mp hLine with hFront | hOwn
    · exact .inr (.inr ⟨line, hFront, hOpens⟩)
    · rcases List.mem_cons.mp hOwn with rfl | hRest
      · exact .inl (hOpening.unique hOpens)
      · exact .inr (.inl ⟨line, hRest, hOpens⟩)
  · rintro (rfl | ⟨line, hRest, hOpens⟩ | ⟨line, hFront, hOpens⟩)
    · exact ⟨opening, List.mem_append_right _ List.mem_cons_self, hOpening⟩
    · exact ⟨line, List.mem_append_right _ (List.mem_cons_of_mem _ hRest), hOpens⟩
    · exact ⟨line, List.mem_append_left _ hFront, hOpens⟩

/-- The enum of a command id stands alone if no line of the block behind the opening one names its type or opens a level
    of its name. A block imports the type if a line names it and none opens such a level; it holds the level if one
    does. The enum stands in the file right behind the opening line, and another line of the file opens a level of its
    name only if the block or a level inside it is called so, or if the header is set up with such a line. -/
theorem id_enum_meets (hStandard : s.IsStandard) (hRun : (s.run g schema).value = .ok o) {judged : JudgedBlock}
    (hBlock : judged ∈ o.blocks) (hEmitted : judged.isEmitted = true) :
    (EnumStandsAlone judged ↔ LeavesEnumAlone s.vocabulary judged.block) ∧
    (Layout.commandIdEnum ∈ judged.imports ↔ judged.block.Uses s.vocabulary Layout.commandIdEnum) ∧
    (Layout.commandIdEnum ∈ judged.block.nested ↔
      ∃ line ∈ judged.block.body.tail, Opens s.vocabulary line Layout.commandIdEnum) ∧
    ∃ opening rest, judged.block.body = opening :: rest ∧ ∃ file ∈ o.files, file.blockName = judged.block.name ∧
      file.contents = Text.unlines (s.layout.frontLines o.header judged.imports ++
        opening :: (s.layout.commandIdLines judged.block.commandId ++ rest)) ∧
      ((∃ line ∈ s.layout.frontLines o.header judged.imports ++ opening :: rest,
          Opens s.vocabulary line Layout.commandIdEnum) ↔
        judged.block.name = Layout.commandIdEnum ∨ Layout.commandIdEnum ∈ judged.block.nested ∨
          ∃ line ∈ s.leadingHeader ++ s.trailingHeader, Opens s.vocabulary line Layout.commandIdEnum) := by
  refine ⟨enumStandsAlone_iff hRun hBlock, mem_imports_iff hRun hBlock, mem_nested_iff hRun hBlock, ?_⟩
  obtain ⟨opening, rest, hBody, _⟩ := exists_opening hRun hBlock
  have hAround := opens_around_enum_iff hStandard hRun hBlock Layout.commandIdEnum
  have hLines : s.layout.bodyLines judged.block =
      opening :: (s.layout.commandIdLines judged.block.commandId ++ rest) := by
    rw [Layout.bodyLines, hBody]
  have hContents : (s.layout.render o.header judged).contents = Text.unlines (s.layout.frontLines o.header
      judged.imports ++ s.layout.bodyLines judged.block) := rfl
  rw [hBody] at hAround
  rw [hLines] at hContents
  exact ⟨opening, rest, hBody, _, (mem_files_iff hRun).mpr ⟨judged, hBlock, hEmitted, rfl⟩, rfl, hContents, hAround⟩

/-- A block with a command id and a field of a type that is called as the enum is. -/
def namesake : Block := ⟨"Login", 7, ["message Login \x7b", "  CmdId last = 1;", "\x7d"], ["CmdId"], []⟩

def namesakeText : String := Text.unlines ("// CmdId: 7" :: namesake.body)

theorem run_namesake : ∃ o : SplitResult, (default.run .empty namesakeText).value = .ok o ∧
    (∀ judged, judged ∈ o.blocks ↔ judged = ⟨namesake, .command⟩) ∧ o.header = [] := by
  have hParsed : (Schema.ofLines default.vocabulary ("// CmdId: 7" :: namesake.body)).value = .ok ⟨[], [namesake]⟩ :=
    rfl
  obtain ⟨o, hRun, hHeader, hBlocks, _⟩ := run_command (by decide) hParsed (by decide +kernel)
  exact ⟨o, hRun, hBlocks, hHeader⟩

/-- The file imports the type, and the enum stands in its place. -/
theorem namesake_met : ∃ o : SplitResult, (default.run .empty namesakeText).value = .ok o ∧
    ∃ judged ∈ o.blocks, judged.isEmitted = true ∧ judged.block.commandId = 7 ∧ "CmdId" ∈ judged.imports ∧
      ¬ LeavesEnumAlone default.vocabulary judged.block ∧
      ∃ file ∈ o.files, file.contents = Text.unlines ["", "", "import \"CmdId.proto\";", "", "message Login \x7b",
        "\tenum CmdId \x7b", "\t\tNONE = 0;", "\t\tCMD_ID = 7;", "\t\x7d", "  CmdId last = 1;", "\x7d"] := by
  obtain ⟨o, hRun, hBlocks, hHeader⟩ := run_namesake
  have hBlock : ⟨namesake, .command⟩ ∈ o.blocks := (hBlocks _).mpr rfl
  obtain ⟨hAlone, hImport, _, opening, rest, hBody, file, hFile, _, hContents, _⟩ :=
    id_enum_meets isStandard_default hRun hBlock rfl
  have hUses : namesake.Uses default.vocabulary "CmdId" := by decide
  refine ⟨o, hRun, _, hBlock, rfl, rfl, hImport.mpr hUses, fun hLeaves => ?_, file, hFile, ?_⟩
  · exact (hAlone.mpr hLeaves).1 (hImport.mpr hUses)
  · obtain ⟨rfl, rfl⟩ := List.cons.inj hBody
    rw [hContents, hHeader]
    decide

/-- The enum does not always stand alone. -/
theorem not_standsAlone : ¬ ∀ (s : Splitter) (g : Glossary) (schema : String) (o : SplitResult),
    (s.run g schema).value = .ok o → ∀ judged ∈ o.blocks, judged.isEmitted = true → judged.block.commandId ≠ 0 →
      EnumStandsAlone judged := by
  intro h
  obtain ⟨o, hRun, hBlocks, _⟩ := run_namesake
  have hAlone := h default .empty namesakeText o hRun ⟨namesake, .command⟩ ((hBlocks _).mpr rfl) rfl (by decide)
  exact hAlone.1 (List.mem_singleton_self _)

end Splitter

end Unbundle
