/-
  Unbundle.Proofs.Splitter — what a whole split gives, and a second split of what it gave.

  (1) `run_eq_ok_iff`, `run_eq_error_iff`. A split fails as the scan of the cleared lines does, and otherwise lays
  out what was scanned; `exists_run_iff` says for which schemas. `exists_share_of_mem_blocks`, `files_eq`,
  `opcodes_eq`: where its blocks, its files and its opcode class come from.

  (2) `ofSettings_eq_ok_iff`. Settings describe a splitter unless their pattern or their blacklist cannot be read. They
  leave the vocabulary of schemas as it is, but for the words that never count as types (`isStandard_ofSettings`).

  (3) `ofLines_idle_append`. Lines without any meaning may stand in front of a schema.

  (4) `run_combined`. The combined schema splits into the same files again, without any clear names: the comments
  on top of it mean nothing to a scan, and its lines come back as they were written. A line that ends in a carriage
  return would lose it on the way.
-/

import Unbundle.Proofs.Clearing
import Unbundle.Proofs.Layout
import Unbundle.Proofs.Schema.Balance
import Unbundle.Proofs.Selection
import Unbundle.Splitter

namespace Unbundle

open Line Text

namespace Splitter

variable (s : Splitter) (g : Glossary) (schema : String)

/-! ## (1) A split -/

/-- The lines of a schema with the clear names of a glossary. -/
def clearedLines : List ClearedLine := (Text.lines schema).map (Clearing.line g.keyTree s.annotate)

/-- The files of a scanned schema, without what is reported about them. -/
theorem value_layOut (cleared : List ClearedLine) (parsed : Schema) : (s.layOut cleared parsed).value =
    { clearedLines := cleared.map ClearedLine.text
      changedLines := cleared.countP ClearedLine.changed
      header := s.leadingHeader ++ parsed.header ++ s.trailingHeader
      blocks := (s.selection.resolve parsed.blocks).value
      combined := s.layout.renderCombined (cleared.map ClearedLine.text)
      files := ((s.selection.resolve parsed.blocks).value.filter JudgedBlock.isEmitted).map
        (s.layout.render (s.leadingHeader ++ parsed.header ++ s.trailingHeader))
      opcodes? := s.opcodePackage?.map
        (OpcodeTable.ofBlocks (s.selection.resolve parsed.blocks).value).renderJava } := by
  unfold layOut
  simp only [Logged.value_bind]
  split <;> rfl

theorem value_run : (s.run g schema).value =
    (Schema.ofLines s.vocabulary ((s.clearedLines g schema).map ClearedLine.text)).value.map
      fun parsed => (s.layOut (s.clearedLines g schema) parsed).value := by
  have hClear : (s.clear g.keyTree schema).value = s.clearedLines g schema := rfl
  unfold run
  rw [Logged.value_bind, hClear, Logged.value_bind]
  rcases (Schema.ofLines s.vocabulary ((s.clearedLines g schema).map ClearedLine.text)).value with failure | parsed
  · rfl
  · rfl

variable {s g schema}

theorem run_eq_error_iff {failure : Failure} : (s.run g schema).value = .error failure ↔
    (Schema.ofLines s.vocabulary ((s.clearedLines g schema).map ClearedLine.text)).value = .error failure := by
  rw [value_run]
  rcases (Schema.ofLines s.vocabulary ((s.clearedLines g schema).map ClearedLine.text)).value with failure' | parsed
  · constructor <;> intro h <;> cases h <;> rfl
  · constructor <;> intro h <;> cases h

theorem run_eq_ok_iff {o : SplitResult} : (s.run g schema).value = .ok o ↔
    ∃ parsed, (Schema.ofLines s.vocabulary ((s.clearedLines g schema).map ClearedLine.text)).value = .ok parsed ∧
      o = (s.layOut (s.clearedLines g schema) parsed).value := by
  rw [value_run]
  rcases (Schema.ofLines s.vocabulary ((s.clearedLines g schema).map ClearedLine.text)).value with failure | parsed
  · constructor
    · intro h
      cases h
    · rintro ⟨parsed, h, _⟩
      cases h
  · constructor
    · intro h
      cases h
      exact ⟨parsed, rfl, rfl⟩
    · rintro ⟨parsed', h, rfl⟩
      cases h
      rfl

/-- A schema splits if, with clear names, closings nowhere outnumber openings. -/
theorem exists_run_iff : (∃ r, (s.run g schema).value = .ok r) ↔ ∀ n, ¬ Line.Overclosed s.vocabulary
    (((Text.lines schema).map fun line => (Clearing.line g.keyTree s.annotate line).text).take n) := by
  have hLines : (s.clearedLines g schema).map ClearedLine.text =
      (Text.lines schema).map fun line => (Clearing.line g.keyTree s.annotate line).text := List.map_map
  rw [← Schema.exists_ofLines_eq_ok_iff, ← hLines]
  constructor
  · rintro ⟨r, hRun⟩
    obtain ⟨parsed, hParsed, _⟩ := run_eq_ok_iff.mp hRun
    exact ⟨parsed, hParsed⟩
  · rintro ⟨parsed, hParsed⟩
    exact ⟨_, run_eq_ok_iff.mpr ⟨parsed, hParsed, rfl⟩⟩

/-- Every block of a split took in the lines of a share, and was pruned then. -/
theorem exists_share_of_mem_blocks {o : SplitResult} (hRun : (s.run g schema).value = .ok o) {judged : JudgedBlock}
    (h : judged ∈ o.blocks) : ∃ (p : Share) (b : Block), p.Fits s.vocabulary ∧ p.Reads s.vocabulary b ∧
      judged.block = b.pruned := by
  obtain ⟨parsed, hParsed, rfl⟩ := run_eq_ok_iff.mp hRun
  rw [value_layOut] at h
  obtain ⟨b, hb, hJudged, _⟩ := Selection.exists_of_mem_resolve s.selection parsed.blocks h
  obtain ⟨p, hFits, hReads⟩ := (Scan.exists_share hParsed).2 b hb
  exact ⟨p, b, hFits, hReads, hJudged⟩

/-- The files of a split are those of its emitted blocks, in their order. -/
theorem files_eq {o : SplitResult} (hRun : (s.run g schema).value = .ok o) :
    o.files = o.emitted.map (s.layout.render o.header) := by
  obtain ⟨parsed, _, rfl⟩ := run_eq_ok_iff.mp hRun
  rw [value_layOut]
  rfl

theorem mem_files_iff {o : SplitResult} (hRun : (s.run g schema).value = .ok o) {file : BlockFile} : file ∈ o.files ↔
    ∃ judged ∈ o.blocks, judged.isEmitted = true ∧ s.layout.render o.header judged = file := by
  rw [files_eq hRun, SplitResult.emitted]
  simp only [List.mem_map, List.mem_filter, and_assoc]

/-- The opcode class is that of the same blocks. -/
theorem opcodes_eq {o : SplitResult} (hRun : (s.run g schema).value = .ok o) :
    o.opcodes? = s.opcodePackage?.map (OpcodeTable.ofBlocks o.blocks).renderJava := by
  obtain ⟨parsed, _, rfl⟩ := run_eq_ok_iff.mp hRun
  rw [value_layOut]

/-! ## (2) Splitters of settings -/

/-- Command ids are announced by the marker that stands unless a user names another; only the words that never count
    as types are free. -/
def IsStandard (s : Splitter) : Prop := ∃ suppressed, s.vocabulary = .protobuf suppressed

theorem isStandard_default : default.IsStandard := ⟨Vocabulary.defaultSuppressed, rfl⟩

/-- Settings describe a splitter if the pattern and the blacklist can be read; no other setting is refused. -/
theorem ofSettings_eq_ok_iff [Formats] {readFile : String → Except Fault String} {settings : Settings} :
    ofSettings readFile settings = .ok s ↔
      ∃ selection blacklist, Selection.make settings.parser.obfuscatedNamePattern [] = .ok selection ∧
        settings.blacklist.resolve readFile = .ok blacklist ∧
        s = {
          vocabulary := .protobuf settings.parser.suppressedTypes
          selection := { selection with blacklist }
          annotate := settings.annotateReplacements
          leadingHeader := [settings.gameVersionLine, ""]
          trailingHeader := settings.headerContent
          layout := .default
          opcodePackage? := if settings.opcodes.enabled then some settings.opcodes.packageHeader else none } := by
  unfold ofSettings
  rcases hSelection : Selection.make settings.parser.obfuscatedNamePattern [] with failure | selection
  · constructor
    · intro h
      cases h
    · rintro ⟨_, _, h, _⟩
      cases h
  rcases hBlacklist : settings.blacklist.resolve readFile with failure | blacklist
  · constructor
    · intro h
      cases h
    · rintro ⟨_, _, _, h, _⟩
      cases h
  · constructor
    · intro h
      cases h
      exact ⟨selection, blacklist, rfl, rfl, rfl⟩
    · rintro ⟨_, _, h, h', rfl⟩
      cases h
      cases h'
      rfl

/-- No settings name another marker. -/
theorem isStandard_ofSettings [Formats] {readFile : String → Except Fault String} {settings : Settings}
    (h : ofSettings readFile settings = .ok s) : s.IsStandard := by
  obtain ⟨_, _, _, _, rfl⟩ := ofSettings_eq_ok_iff.mp h
  exact ⟨settings.parser.suppressedTypes, rfl⟩

end Splitter

/-! ## (3) Lines in front of a schema -/

/-- Lines that are no header lines and have no other meaning may stand in front of a schema. -/
theorem Schema.ofLines_idle_append {v : Vocabulary} {front lines : List String} {schema : Schema}
    (hIdle : ∀ line ∈ front, IsHeader v line ∨ Idle v line) (hHeader : front.filter (IsHeader v ·) = [])
    (h : (Schema.ofLines v lines).value = .ok schema) : (Schema.ofLines v (front ++ lines)).value = .ok schema := by
  obtain ⟨hKept, rfl⟩ := Schema.ofLines_eq_ok_iff.mp h
  obtain ⟨hFront, hFeed⟩ := Scan.feed_front (s := .start) rfl hIdle
  have hStart : Scan.start.feed v front = Scan.start.renumber front.length := by
    rw [hFeed, hHeader]
    simp [Scan.renumber, Scan.start]
  obtain ⟨hEnd, hRest⟩ := Scan.feed_renumber (v := v) .start front.length lines
  apply Schema.ofLines_eq_ok_iff.mpr
  constructor
  · apply Scan.kept_append_eq_iff.mpr
    rw [hStart, hRest]
    exact ⟨hFront, hKept⟩
  · rw [Scan.feed_append, hStart, hEnd]
    rfl

/-! ## (4) A second split -/

namespace Splitter

theorem isEmpty_keyTree_empty : Glossary.empty.keyTree.isEmpty = true := rfl

/-- Without clear names all lines stay, and none counts as changed. -/
theorem clearedLines_empty (s : Splitter) (schema : String) :
    (s.clearedLines .empty schema).map ClearedLine.text = Text.lines schema ∧
      (s.clearedLines .empty schema).countP ClearedLine.changed = 0 := by
  have hLines : s.clearedLines .empty schema = (Text.lines schema).map fun text => ⟨text, []⟩ :=
    List.map_congr_left fun text _ => Clearing.line_of_isEmpty isEmpty_keyTree_empty s.annotate text
  rw [hLines, List.map_map, List.countP_map]
  constructor
  · exact List.map_id _
  · apply List.countP_eq_zero.mpr
    intro text _
    simp [ClearedLine.changed]

/-- Without clear names, lines written one after the other are split as they are scanned. -/
theorem exists_run_unlines {s : Splitter} {lines : List String} {parsed : Schema}
    (hLines : ∀ line ∈ lines, IsLine line.toList) (hParsed : (Schema.ofLines s.vocabulary lines).value = .ok parsed) :
    ∃ o : SplitResult, (s.run .empty (unlines lines)).value = .ok o ∧
      o.header = s.leadingHeader ++ parsed.header ++ s.trailingHeader ∧
      o.blocks = (s.selection.resolve parsed.blocks).value := by
  have hCleared := (clearedLines_empty s (unlines lines)).1
  rw [lines_unlines_of_isLine hLines] at hCleared
  refine ⟨_, run_eq_ok_iff.mpr ⟨parsed, by rw [hCleared]; exact hParsed, rfl⟩, ?_⟩
  rw [value_layOut]
  exact ⟨rfl, rfl⟩

/-- A split of what a split has put out, without any clear names, changes no line and gives the same header, the same
    verdicts on the same blocks, and the same files. -/
theorem run_combined {s : Splitter} {g : Glossary} {schema : String} {o : SplitResult} (hStandard : s.IsStandard)
    (hProvenance : ∀ comment ∈ s.layout.provenance, '\n' ∉ comment.toList ∧ ¬ "CmdId:".toList <+: comment.toList)
    (hRun : (s.run g schema).value = .ok o) (hLines : ∀ line ∈ o.clearedLines, IsLine line.toList) :
    ∃ o', (s.run .empty o.combined).value = .ok o' ∧ o'.changedLines = 0 ∧ o'.header = o.header ∧
      o'.blocks = o.blocks ∧ o'.files = o.files ∧ o'.opcodes? = o.opcodes? := by
  obtain ⟨suppressed, hVocabulary⟩ := hStandard
  obtain ⟨parsed, hParsed, hResult⟩ := run_eq_ok_iff.mp hRun
  rw [value_layOut] at hResult
  have hCleared : o.clearedLines = (s.clearedLines g schema).map ClearedLine.text := by rw [hResult]
  have hFront : Layout.Leaves s.vocabulary s.layout.provenanceLines [] := by
    rw [hVocabulary]
    exact Layout.leaves_provenanceLines hProvenance
  have hRead : Text.lines o.combined = s.layout.provenanceLines.map readBack ++ o.clearedLines := by
    have hWritten : ∀ line ∈ s.layout.provenanceLines ++ o.clearedLines, '\n' ∉ line.toList := by
      intro line hLine
      rcases List.mem_append.mp hLine with hLine | hLine
      · exact hFront.feed_not_mem line hLine
      · exact (hLines line hLine).1
    have hCombined : o.combined = unlines (s.layout.provenanceLines ++ o.clearedLines) := by
      rw [hCleared, hResult]
      rfl
    rw [hCombined, lines_unlines hWritten, List.map_append, map_readBack_eq hLines]
  obtain ⟨hText, hCount⟩ := clearedLines_empty s o.combined
  have hAgain := Schema.ofLines_idle_append hFront.idle hFront.header_eq hParsed
  rw [← hCleared, ← hRead, ← hText] at hAgain
  refine ⟨_, run_eq_ok_iff.mpr ⟨parsed, hAgain, rfl⟩, ?_⟩
  rw [value_layOut]
  refine ⟨hCount, ?_⟩
  rw [hResult]
  exact ⟨rfl, rfl, rfl, rfl⟩

/-- A comment on top of every file, and an opcode class. -/
def stamped : Splitter :=
  { default with layout := ⟨"\t", ["Made for 1.0"]⟩, opcodePackage? := some "package game;" }

def pingNames : Glossary := ⟨(∅ : Std.ExtTreeMap String String).insert "ABC" "Ping", ⟨1, 0, 0, 0⟩⟩

/-- A block with a command id and a name to clear. -/
def pingText : String := "// CmdId: 7\nmessage ABC \x7b\n\x7d\n"

/-- What a split puts out for it in one text. -/
def pingCombined : String := "// Made for 1.0\n\n// CmdId: 7\nmessage Ping \x7b /*[ABC->Ping]*/\n\x7d\n"

theorem clearedLines_ping (annotate : Bool) :
    Splitter.clearedLines { stamped with annotate } pingNames pingText =
      [⟨"// CmdId: 7", []⟩,
        ⟨"message Ping \x7b" ++ if annotate then " /*[ABC->Ping]*/" else "", [("ABC", "Ping")]⟩, ⟨"\x7d", []⟩] := by
  unfold clearedLines
  simp only [funext (Clearing.line_eq pingNames.keyTree annotate)]
  cases annotate
  · decide +kernel
  · decide +kernel

/-- A split and the split of its combined schema. -/
theorem run_pingCombined : ∃ o o' : SplitResult,
    (stamped.run pingNames pingText).value = .ok o ∧ o.changedLines = 1 ∧ o.combined = pingCombined ∧
      o.files.map BlockFile.fileName = ["Ping.proto"] ∧
      (stamped.run .empty pingCombined).value = .ok o' ∧ o'.changedLines = 0 ∧ o'.files = o.files := by
  have hParsed : (Schema.ofLines stamped.vocabulary
      ["// CmdId: 7", "message Ping \x7b /*[ABC->Ping]*/", "\x7d"]).value =
        .ok ⟨[], [⟨"Ping", 7, ["message Ping \x7b /*[ABC->Ping]*/", "\x7d"], [], []⟩]⟩ := rfl
  have hLines : stamped.clearedLines pingNames pingText = _ := clearedLines_ping true
  have hRun := run_eq_ok_iff.mpr ⟨_, by rw [hLines]; exact hParsed, rfl⟩
  rw [hLines, value_layOut] at hRun
  have hStandard : stamped.IsStandard := ⟨Vocabulary.defaultSuppressed, rfl⟩
  obtain ⟨o', hAgain, hChanged, _, _, hFiles, _⟩ := run_combined hStandard
    (List.forall_mem_singleton.mpr (by decide)) hRun (by decide)
  exact ⟨_, o', hRun, rfl, by decide, by decide +kernel, hAgain, hChanged, hFiles⟩

end Splitter

end Unbundle
