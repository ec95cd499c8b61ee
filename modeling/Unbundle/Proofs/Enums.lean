/-
  Unbundle.Proofs.Enums — what a top-level enum imports.

  (1) `getElem?_blocks_of_idle`. A block whose lines open and close nothing between its opening and its closing line
  takes in what follows up to the next opening, and then stays as it is.

  (2) `enum_imports`. The enum imports the values that are not known as such, those with a minus sign or with a
  hexadecimal number. So an enum is free of imports if all its numbers are plain digits (and nothing behind it names a
  type), but not for being an enum (`not_enumsImportNothing`).
-/

import Unbundle.Proofs.Imports
import Unbundle.Proofs.Schema.EnumValue

namespace Unbundle

open Line Text

variable {v : Vocabulary}

/-! ## (1) A block among others -/

/-- The lines up to the next one that opens a level. -/
def Line.upToOpening (v : Vocabulary) (lines : List String) : List String :=
  lines.takeWhile fun line => ¬ ∃ name, Opens v line name

theorem Line.not_opens_of_mem_upToOpening {lines : List String} {line : String} (h : line ∈ upToOpening v lines) :
    ¬ ∃ name, Opens v line name :=
  of_decide_eq_true (List.all_eq_true.mp List.all_takeWhile line h)

namespace Scan

variable {s : Scan} {b : Block} {lines : List String}

/-- At depth 0 an opening line starts a block behind all others. -/
theorem next_of_opensBlock {opening name : String} (hHeader : ¬ IsHeader v opening) (hDepth : s.depth = 0)
    (hOpens : Opens v opening name) : (s.next v opening).current? = some (.opened name s.pending opening) ∧
      (s.next v opening).depth = 1 ∧ (s.next v opening).earlier = s.blocks := by
  obtain ⟨_, hNext⟩ := next_open (.inr hHeader) (.inr hDepth) hOpens
  rw [hNext]
  exact ⟨rfl, congrArg (· + 1) hDepth, rfl⟩

/-- A block without open levels takes in what follows up to the next opening. -/
theorem getElem?_blocks_feed (hCurrent : s.current? = some b) (hDepth : s.depth = 0)
    (hKept : s.kept v lines = lines) : (s.feed v lines).blocks[s.earlier.length]? =
      some ((upToOpening v lines).foldl (Block.absorb v) b) := by
  induction lines generalizing s b with
  | nil => simp [upToOpening, blocks, hCurrent]
  | cons line lines ih =>
    obtain ⟨hKeeps, hRest⟩ := kept_cons_eq_iff.mp hKept
    have hInBlock : s.current?.isSome = true := by rw [hCurrent]; rfl
    rw [feed_cons, upToOpening]
    by_cases hLine : ∃ name, Opens v line name
    · obtain ⟨name, hOpens⟩ := hLine
      obtain ⟨_, hNext⟩ := next_open (.inl hInBlock) (.inr hDepth) hOpens
      have hEarlier : (s.next v line).earlier = s.earlier ++ [b] := by
        rw [hNext]
        simp [openBlock, blocks, hCurrent]
      obtain ⟨later, hLater⟩ := earlier_isPrefix_feed (v := v) (s.next v line) lines
      rw [blocks, ← hLater, hEarlier, List.takeWhile_cons_of_neg (by simpa using ⟨name, hOpens⟩)]
      simp
    · have hNeither : ¬ ((∃ name, Opens v line name) ∨ Closes line) := by
        intro h
        obtain ⟨hRefused, _⟩ := next_refused (v := v) (.inl hInBlock) hDepth (h.resolve_left hLine)
        cases hKeeps.symm.trans hRefused
      obtain ⟨_, hAbsorbed, hLevel, hEarlier, _⟩ := next_absorb hCurrent fun h => absurd h hNeither
      rw [levels_of_neither hNeither] at hLevel
      have hBlock := ih hAbsorbed (by omega) hRest
      rw [hEarlier] at hBlock
      rw [List.takeWhile_cons_of_pos (by simpa using hLine), List.foldl_cons]
      exact hBlock

end Scan

namespace Schema

variable {before inner after : List String} {opening name closing : String} {schema : Schema}

theorem getElem?_blocks_of_idle
    (hParsed : (ofLines v (before ++ opening :: (inner ++ closing :: after))).value = .ok schema)
    (hHeader : ¬ IsHeader v opening) (hDepth : (Scan.start.feed v before).depth = 0) (hOpens : Opens v opening name)
    (hInner : ∀ line ∈ inner, Idle v line) (hCloses : Closes closing) :
    ∃ id, schema.blocks[(Scan.start.feed v before).blocks.length]? =
      some ((inner ++ closing :: upToOpening v after).foldl (Block.absorb v) (.opened name id opening)) := by
  obtain ⟨hKept, rfl⟩ := ofLines_eq_ok_iff.mp hParsed
  have hSplit : inner ++ closing :: after = (inner ++ [closing]) ++ after := by simp
  rw [hSplit] at hKept ⊢
  obtain ⟨_, hKept⟩ := Scan.kept_append_eq_iff.mp hKept
  obtain ⟨_, hKept⟩ := Scan.kept_cons_eq_iff.mp hKept
  obtain ⟨_, hKept⟩ := Scan.kept_append_eq_iff.mp hKept
  rw [Scan.feed_append, Scan.feed_cons, Scan.feed_append]
  generalize Scan.start.feed v before = s at hDepth hKept ⊢
  obtain ⟨hCurrent, hLevel, hEarlier⟩ := Scan.next_of_opensBlock hHeader hDepth hOpens
  have hInside : Inside v (s.next v opening).depth (inner ++ [closing]) := by
    refine inside_concat_iff.mpr ⟨.of_idle hInner _, fun _ => ?_⟩
    rw [hLevel, levels_of_idle hInner]
    decide
  obtain ⟨_, hBlock, hClosed, hEarlier', _⟩ := Scan.feed_absorb hCurrent hInside
  have hZero : ((s.next v opening).feed v (inner ++ [closing])).depth = 0 := by
    rw [levels_append, levels_of_idle hInner, levels_of_closes hCloses, hLevel] at hClosed
    omega
  have hPlace := Scan.getElem?_blocks_feed hBlock hZero hKept
  rw [hEarlier', hEarlier, ← List.foldl_append, List.append_assoc] at hPlace
  exact ⟨s.pending, hPlace⟩

/-! ## (2) The imports of an enum -/

/-- The types that an enum names: by its values, and by what stands behind it up to the next block. -/
def enumReferences (v : Vocabulary) (values : List EnumValue) (after : List String) : List String :=
  values.filterMap (EnumValue.import? v) ++ (upToOpening v after).filterMap (Line.reference? v)

theorem enumReferences_eq_nil_iff {values : List EnumValue} : enumReferences v values after = [] ↔
    (∀ e ∈ values, e.number.all Char.isDigit = true ∨ v.classify e.name ≠ .custom) ∧
      ∀ line ∈ upToOpening v after, Line.reference? v line = none := by
  have hValue : ∀ e : EnumValue, e.import? v = none ↔
      e.number.all Char.isDigit = true ∨ v.classify e.name ≠ .custom := by
    intro e
    unfold EnumValue.import?
    by_cases hDigits : e.number.all Char.isDigit = true
    · simp [hDigits]
    · simp [hDigits]
  simp only [enumReferences, List.append_eq_nil_iff, List.filterMap_eq_nil_iff, hValue]

/-- The block of an enum has its name, the types it names, and no levels inside. -/
theorem exists_enum_block {suppressed : List String} {values : List EnumValue}
    (hParsed : (ofLines (.protobuf suppressed)
      (before ++ opening :: (values.map EnumValue.line ++ closing :: after))).value = .ok schema)
    (hDepth : (Scan.start.feed (.protobuf suppressed) before).depth = 0)
    (hOpens : Opens (.protobuf suppressed) opening name) (hCloses : Closes closing) :
    ∃ b, schema.blocks[(Scan.start.feed (.protobuf suppressed) before).blocks.length]? = some b ∧ b.name = name ∧
      b.references = enumReferences (.protobuf suppressed) values after ∧ b.nested = [] := by
  have hInner : ∀ line ∈ values.map EnumValue.line, Idle (.protobuf suppressed) line := by
    intro line hLine
    obtain ⟨e, _, rfl⟩ := List.mem_map.mp hLine
    exact e.idle
  obtain ⟨id, hBlock⟩ := getElem?_blocks_of_idle hParsed hOpens.not_isHeader hDepth hOpens hInner hCloses
  refine ⟨_, hBlock, Block.foldl_absorb_name .., ?_, ?_⟩
  · rw [Block.foldl_absorb_references, List.filterMap_append, List.filterMap_map,
      List.filterMap_cons_none (reference?_of_closes hCloses)]
    have hValues : Line.reference? (.protobuf suppressed) ∘ EnumValue.line =
        EnumValue.import? (.protobuf suppressed) := funext EnumValue.reference?_line
    rw [hValues]
    rfl
  · refine List.eq_nil_iff_forall_not_mem.mpr fun level hLevel => ?_
    rw [Block.mem_foldl_absorb_nested] at hLevel
    obtain ⟨line, hLine, hOpener⟩ := hLevel.resolve_left List.not_mem_nil
    rcases List.mem_append.mp hLine with hLine | hLine
    · exact (hInner line hLine).1 (.inl ⟨level, hOpener⟩)
    rcases List.mem_cons.mp hLine with rfl | hLine
    · exact hOpener.not_closes hCloses
    · exact not_opens_of_mem_upToOpening hLine ⟨level, hOpener⟩

/-- A top-level enum names the values whose numbers are not written with digits only and whose names are of the custom
    class, and what the lines behind it name. That is what its block imports, whatever gets a file, and its file has no
    other import line, except in the header, as a comment, or as a line of the block. -/
theorem enum_imports {suppressed : List String} {values : List EnumValue}
    (hParsed : (ofLines (.protobuf suppressed)
      (before ++ opening :: (values.map EnumValue.line ++ closing :: after))).value = .ok schema)
    (hDepth : (Scan.start.feed (.protobuf suppressed) before).depth = 0)
    (hOpens : Opens (.protobuf suppressed) opening name) (hCloses : Closes closing) :
    ∃ b, schema.blocks[(Scan.start.feed (.protobuf suppressed) before).blocks.length]? = some b ∧ b.name = name ∧
      b.references = enumReferences (.protobuf suppressed) values after ∧
      (b.references = [] ↔
        (∀ e ∈ values, e.number.all Char.isDigit = true ∨ Vocabulary.classOf suppressed e.name ≠ .custom) ∧
          ∀ line ∈ upToOpening (.protobuf suppressed) after, Line.reference? (.protobuf suppressed) line = none) ∧
      ∀ selection : Selection, ∃ judged,
        (selection.resolve schema.blocks).value[(Scan.start.feed (.protobuf suppressed) before).blocks.length]? =
          some judged ∧ judged.block = b.pruned ∧ (∀ x, x ∈ judged.imports ↔ x ∈ b.references) ∧
        ∀ (layout : Layout) (header : List String) (x : String),
          Layout.importLine x ∈ Text.lines (layout.render header judged).contents ↔
            x ∈ b.references ∨ Layout.importLine x ∈ Text.lines (Text.unlines header) ++
              layout.otherLines judged.block := by
  obtain ⟨b, hBlock, hName, hReferences, hNested⟩ := exists_enum_block hParsed hDepth hOpens hCloses
  refine ⟨b, hBlock, hName, hReferences, hReferences ▸ enumReferences_eq_nil_iff, fun selection => ?_⟩
  have hIdentifiers : b.HasIdentifiers (.protobuf suppressed) := by
    obtain ⟨p, hFits, hReads⟩ := (Scan.exists_share hParsed).2 b (List.mem_of_getElem? hBlock)
    exact hasIdentifiers_of_reads hFits hReads
  have hJudged := selection.getElem?_resolve schema.blocks (Scan.start.feed (.protobuf suppressed) before).blocks.length
  rw [hBlock, Option.map_some] at hJudged
  have hImports : ∀ x, x ∈ b.pruned.references ↔ x ∈ b.references := by
    intro x
    rw [Block.pruned, List.mem_eraseDups, hNested]
    simp
  generalize selection.judge (Selection.importedNames schema.blocks) b.pruned = verdict at hJudged
  have hNames : ∀ x ∈ (JudgedBlock.mk b.pruned verdict).imports, IsIdentifier x :=
    fun x hImport => (hIdentifiers.pruned.references x hImport).1
  refine ⟨_, hJudged, rfl, hImports, fun layout header x => ?_⟩
  rw [Layout.mem_contents_iff layout header hNames (Layout.importLine_ne_empty x),
    Layout.importLine_mem_declarations_iff, List.mem_append, or_assoc, or_left_comm]
  exact or_congr_left (hImports x)

/-- A value line with an indent and with spaces around the equals sign. -/
def spacedValue (name : String) (number : List Char) (line : String) (hName : IsIdentifier name)
    (hNumber : IsInteger number)
    (hLine : line.toList = [' ', ' '] ++ (name.toList ++ ([' '] ++ '=' :: ([' '] ++ (number ++ ([] ++ [';'])))))) :
    EnumValue :=
  ⟨name, number, line, hName, hNumber, [' ', ' '], [' '], [' '], [], [],
    ⟨List.all_eq_true.mp (by decide), List.all_eq_true.mp (by decide), List.all_eq_true.mp (by decide),
      List.forall_mem_nil _, List.forall_mem_nil _⟩, hLine⟩

/-- The values of an enum, the second one negative. -/
def codeValues : List EnumValue := [
  spacedValue "ZERO" ['0'] "  ZERO = 0;" ⟨by decide, List.all_eq_true.mp (by decide)⟩
    (.inl (.inl ⟨by decide, List.all_eq_true.mp (by decide)⟩)) (by decide),
  spacedValue "LOW" ['-', '1'] "  LOW = -1;" ⟨by decide, List.all_eq_true.mp (by decide)⟩
    (.inr ⟨[], ['1'], rfl, List.forall_mem_nil _, .inl ⟨by decide, List.all_eq_true.mp (by decide)⟩⟩) (by decide)]

/-- An enum of these values. -/
def code : Block := ⟨"Code", 0, ["enum Code \x7b", "  ZERO = 0;", "  LOW = -1;", "\x7d"], ["LOW"], []⟩

/-- A command that has a field of that type. -/
def ping : Block := ⟨"Ping", 7, ["message Ping \x7b", "  Code code = 1;", "\x7d"], ["Code"], []⟩

/-- The enum gets a file for the command, and the file imports a value of the enum. -/
theorem code_imports_low : (ofLines (.protobuf []) (("// CmdId: 7" :: ping.body) ++
      "enum Code \x7b" :: (codeValues.map EnumValue.line ++ ["\x7d"]))).value = .ok ⟨[], [ping, code]⟩ ∧
    ∃ judged ∈ (Selection.default.resolve [ping, code]).value, judged.isEmitted = true ∧ judged.block.name = "Code" ∧
      "import \"LOW.proto\";" ∈ Text.lines (Layout.default.render [] judged).contents := by
  have hParsed : (ofLines (.protobuf []) (("// CmdId: 7" :: ping.body) ++
      "enum Code \x7b" :: (codeValues.map EnumValue.line ++ ["\x7d"]))).value = .ok ⟨[], [ping, code]⟩ := rfl
  have hOpens : Opens (.protobuf []) "enum Code \x7b" "Code" := by decide
  have hCloses : Closes "\x7d" := by decide
  obtain ⟨b, hPlace, hName, hReferences, _, hSelected⟩ := enum_imports hParsed rfl hOpens hCloses
  obtain ⟨judged, hJudged, hBlock, _, hFile⟩ := hSelected Selection.default
  obtain rfl : code = b := Option.some.inj hPlace
  have hMem := List.mem_of_getElem? hJudged
  have hEmitted : judged.isEmitted = true := by
    obtain ⟨_, _, _, hVerdict⟩ := Selection.default.exists_of_mem_resolve [ping, code] hMem
    rw [JudgedBlock.isEmitted, hVerdict, hBlock]
    exact (Selection.default.isEmitted_judge_iff (b := code.pruned) rfl List.not_mem_nil).mpr (by decide)
  exact ⟨hParsed, judged, hMem, hEmitted, hBlock ▸ hName,
    (hFile Layout.default [] "LOW").mpr (.inl (hReferences ▸ by decide))⟩

/-- Not every enum is free of imports. -/
theorem not_enumsImportNothing : ¬ ∀ (opening name closing : String) (values : List EnumValue) (schema : Schema),
    Opens (.protobuf Vocabulary.defaultSuppressed) opening name → Closes closing →
    (ofLines (.protobuf Vocabulary.defaultSuppressed)
      (opening :: (values.map EnumValue.line ++ [closing]))).value = .ok schema →
    ∀ b ∈ schema.blocks, b.references = [] := by
  intro h
  have hCode := h "enum Code \x7b" "Code" "\x7d" codeValues _ (by decide) (by decide) rfl code List.mem_cons_self
  cases hCode

end Schema

end Unbundle
