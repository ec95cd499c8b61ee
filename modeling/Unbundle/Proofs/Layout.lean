/-
  Unbundle.Proofs.Layout — the file of a block reads back as that block alone.

  (1) `closed_commandIdLines`. The enum behind the opening line is read as a nested level that is closed again; it
  names no type.

  (2) `leaves_front`. What stands in front of the block's own lines is read as the header and the imports; comments
  that lose a carriage return still mean nothing.

  (3) `render_reads_back`. A scan of the file finds the header with the imports behind it and one block: the one
  that was scanned first, with the enum in it if it has a command id, and with its references not pruned.
-/

import Unbundle.Layout
import Unbundle.Proofs.Schema.EnumValue
import Unbundle.Proofs.Schema.Partition
import Unbundle.Proofs.Selection

namespace Unbundle

open Line Text

/-- Lines that may stand anywhere in a block: they close the levels they open, and leave nothing in the block but
    these nested names. -/
structure ClosedLines (v : Vocabulary) (names lines : List String) : Prop where
  levels_eq : levels v lines = 0
  inside : Inside v 1 lines
  not_announces : ∀ line ∈ lines, ¬ Announces v line
  references : lines.filterMap (Line.reference? v) = []
  opens_iff : ∀ name, (∃ line ∈ lines, Opens v line name) ↔ name ∈ names

/-- A level opened and closed again around lines that mean nothing. -/
theorem closedLines_nested {v : Vocabulary} {opening name closing : String} (inner : List String)
    (ho : Opens v opening name) (hi : ∀ line ∈ inner, Idle v line ∧ Line.reference? v line = none)
    (hc : Closes closing) : ClosedLines v [name] (opening :: (inner ++ [closing])) := by
  have hIdle : ∀ line ∈ inner, Idle v line := fun line hLine => (hi line hLine).1
  have hOpen : levels v (opening :: inner) = 1 := by
    rw [← List.singleton_append, levels_append, levels_of_opens ho, levels_of_idle hIdle, Int.add_zero]
  refine ⟨?_, ?_, ?_, ?_, ?_⟩
  · rw [← List.cons_append, levels_append, hOpen, levels_of_closes hc]
    rfl
  · rw [← List.cons_append]
    refine inside_concat_iff.mpr ⟨fun before line after hSplit hLine => ?_, fun _ => by rw [hOpen]; decide⟩
    rcases before with _ | ⟨first, before⟩
    · rw [levels_nil]
      decide
    · obtain ⟨_, rfl⟩ := List.cons.inj hSplit
      exact absurd hLine (hIdle line (List.mem_append_right _ List.mem_cons_self)).1
  · intro line hLine
    rcases List.mem_cons.mp hLine with rfl | hLine
    · exact ho.1
    rcases List.mem_append.mp hLine with hLine | hLine
    · exact (hIdle line hLine).2
    · rw [List.mem_singleton.mp hLine]
      exact hc.not_announces
  · refine List.filterMap_eq_nil_iff.mpr fun line hLine => ?_
    rcases List.mem_cons.mp hLine with rfl | hLine
    · exact reference?_of_opens ho
    rcases List.mem_append.mp hLine with hLine | hLine
    · exact (hi line hLine).2
    · rw [List.mem_singleton.mp hLine]
      exact reference?_of_closes hc
  · intro other
    rw [List.mem_singleton]
    constructor
    · intro ⟨line, hLine, hOther⟩
      rcases List.mem_cons.mp hLine with rfl | hLine
      · exact hOther.unique ho
      rcases List.mem_append.mp hLine with hLine | hLine
      · exact absurd (.inl ⟨other, hOther⟩) (hIdle line hLine).1
      · rw [List.mem_singleton.mp hLine] at hOther
        exact absurd hc hOther.not_closes
    · intro hEq
      exact ⟨opening, List.mem_cons_self, hEq ▸ ho⟩

namespace Layout

variable {suppressed : List String} {l : Layout}

/-! ## (1) The enum of a command id -/

theorem enumLine_eq (indent : String) :
    indent ++ "enum " ++ commandIdEnum ++ " \x7b" = indent ++ "enum CmdId \x7b" := by
  rw [String.append_assoc, String.append_assoc]
  rfl

theorem isDigit_of_mem_toString {id : UInt32} {c : Char} (h : c ∈ (toString id).toList) : c.isDigit = true := by
  rw [show (toString id).toList = Nat.toDigits 10 id.toNat from Nat.toList_repr] at h
  exact Nat.isDigit_of_mem_toDigits (by decide) (by decide) h

theorem toList_toString_ne_nil (id : UInt32) : (toString id).toList ≠ [] := by
  rw [show (toString id).toList = Nat.toDigits 10 id.toNat from Nat.toList_repr]
  exact Nat.toDigits_ne_nil

section
variable (hIndent : ∀ c ∈ l.indent.toList, isBlank c = true)
include hIndent

theorem trim_indented (text : String) : trim (l.indent ++ text).toList = trim text.toList := by
  rw [String.toList_append, trim_append_of_blank hIndent]

theorem opens_enumLine :
    Opens (.protobuf suppressed) (l.indent ++ "enum " ++ commandIdEnum ++ " \x7b") commandIdEnum := by
  rw [enumLine_eq, opens_congr (trim_indented hIndent _)]
  have hName : IsIdentifier commandIdEnum := ⟨by decide, List.all_eq_true.mp (by decide)⟩
  refine ⟨fun h => absurd h.head?_eq (by decide), "enum", [' '], " \x7b".toList, rfl, by decide, by decide,
    List.forall_mem_singleton.mpr (by decide), hName, fun c hc => ?_⟩
  cases hc
  decide

theorem closes_lastLine : Closes (l.indent ++ "\x7d") := by
  rw [closes_congr (trim_indented hIndent _)]
  decide

theorem idle_valueLine {name text : String} {digits : List Char}
    (hText : text.toList = name.toList ++ ([' '] ++ '=' :: ([' '] ++ (digits ++ ([] ++ [';'])))))
    (hName : IsIdentifier name) (hNumber : digits ≠ []) (hDigits : ∀ c ∈ digits, c.isDigit = true) :
    Idle (.protobuf suppressed) (l.indent ++ l.indent ++ text) ∧
      Line.reference? (.protobuf suppressed) (l.indent ++ l.indent ++ text) = none := by
  have hFront : Blanks (l.indent ++ l.indent).toList := by
    rw [String.toList_append]
    exact List.forall_mem_append.mpr ⟨hIndent, hIndent⟩
  have hSpace : Blanks [' '] := List.forall_mem_singleton.mpr (by decide)
  have hNone : Blanks [] := List.forall_mem_nil _
  let e : EnumValue := ⟨name, digits, l.indent ++ l.indent ++ text, hName, .inl (.inl ⟨hNumber, hDigits⟩), _, [' '],
    [' '], [], [], ⟨hFront, hSpace, hSpace, hNone, hNone⟩, by rw [String.toList_append, hText]⟩
  exact ⟨e.idle, e.reference?_line.trans (if_pos (List.all_eq_true.mpr hDigits))⟩

theorem idle_noneLine : Idle (.protobuf suppressed) (l.indent ++ l.indent ++ "NONE = 0;") ∧
    Line.reference? (.protobuf suppressed) (l.indent ++ l.indent ++ "NONE = 0;") = none := by
  have hText : "NONE = 0;".toList = "NONE".toList ++ ([' '] ++ '=' :: ([' '] ++ (['0'] ++ ([] ++ [';'])))) := by decide
  exact idle_valueLine hIndent hText ⟨by decide, List.all_eq_true.mp (by decide)⟩ (List.cons_ne_nil _ _)
    (List.forall_mem_singleton.mpr (by decide))

theorem idle_idLine (id : UInt32) :
    Idle (.protobuf suppressed) (l.indent ++ l.indent ++ "CMD_ID = " ++ toString id ++ ";") ∧
      Line.reference? (.protobuf suppressed) (l.indent ++ l.indent ++ "CMD_ID = " ++ toString id ++ ";") = none := by
  have hText : ("CMD_ID = " ++ toString id ++ ";").toList =
      "CMD_ID".toList ++ ([' '] ++ '=' :: ([' '] ++ ((toString id).toList ++ ([] ++ [';'])))) := by
    rw [String.toList_append, String.toList_append, List.append_assoc]
    rfl
  have hLine : l.indent ++ l.indent ++ "CMD_ID = " ++ toString id ++ ";" =
      l.indent ++ l.indent ++ ("CMD_ID = " ++ toString id ++ ";") := by
    simp only [String.append_assoc]
  rw [hLine]
  exact idle_valueLine hIndent hText ⟨by decide, List.all_eq_true.mp (by decide)⟩ (toList_toString_ne_nil id)
    fun c => isDigit_of_mem_toString

theorem closed_commandIdLines (id : UInt32) :
    ClosedLines (.protobuf suppressed) (if id = 0 then [] else [commandIdEnum]) (l.commandIdLines id) := by
  unfold commandIdLines
  split
  · exact ⟨rfl, .nil 1, by simp, rfl, by simp⟩
  · refine closedLines_nested [_, _] (opens_enumLine hIndent) ?_ (closes_lastLine hIndent)
    exact List.forall_mem_cons.mpr ⟨idle_noneLine hIndent, List.forall_mem_singleton.mpr (idle_idLine hIndent id)⟩

end

/-! ## (2) The lines of a file -/

theorem isHeader_importLine (name : String) : IsHeader (.protobuf suppressed) (importLine name) := by
  have hWord : "import" ∈ Vocabulary.headerWords := by decide
  have hLine : (importLine name).toList = 'i' :: ("mport \"".toList ++ (name ++ ".proto\"").toList ++ [';']) := by
    simp [importLine, Block.fileNameOf]
  refine ⟨"import", hWord, ?_⟩
  rw [hLine, trim_cons_concat (by decide) (by decide)]
  exact ⟨_, rfl⟩

theorem isLine_importLine {name : String} (h : IsIdentifier name) : IsLine (importLine name).toList := by
  refine isLine_append ?_ (by decide)
  have hName := feed_not_mem_of_isIdentifier h
  simp [Block.fileNameOf, hName]

theorem isLine_commandIdLines (hIndent : '\n' ∉ l.indent.toList) (id : UInt32) :
    ∀ line ∈ l.commandIdLines id, IsLine line.toList := by
  have hDigits : '\n' ∉ (toString id).toList := fun hMem => absurd (isDigit_of_mem_toString hMem) (by decide)
  unfold commandIdLines
  split
  · exact fun line hLine => absurd hLine List.not_mem_nil
  · simp only [List.forall_mem_cons, List.not_mem_nil, false_implies, implies_true, and_true]
    refine ⟨isLine_append ?_ (by decide), isLine_append ?_ (by decide), isLine_append ?_ (by decide),
      isLine_append ?_ (by decide)⟩
    all_goals simp [hIndent, hDigits, commandIdEnum]

/-- A layout whose indent is blank and whose comments announce nothing, with no line feed in either. -/
structure IsQuiet (l : Layout) : Prop where
  indent : ∀ c ∈ l.indent.toList, isBlank c = true ∧ c ≠ '\n'
  provenance : ∀ comment ∈ l.provenance, '\n' ∉ comment.toList ∧ ¬ "CmdId:".toList <+: comment.toList

/-- Lines that leave these header lines and nothing else when they are written and read back, in front of the
    first block. -/
structure Leaves (v : Vocabulary) (written header : List String) : Prop where
  feed_not_mem : ∀ line ∈ written, '\n' ∉ line.toList
  idle : ∀ line ∈ written.map readBack, IsHeader v line ∨ Idle v line
  header_eq : (written.map readBack).filter (IsHeader v ·) = header

theorem Leaves.append {v : Vocabulary} {written header written' header' : List String} (h : Leaves v written header)
    (h' : Leaves v written' header') : Leaves v (written ++ written') (header ++ header') where
  feed_not_mem line hLine := (List.mem_append.mp hLine).elim (h.feed_not_mem line) (h'.feed_not_mem line)
  idle line hLine := by
    rw [List.map_append] at hLine
    exact (List.mem_append.mp hLine).elim (h.idle line) (h'.idle line)
  header_eq := by rw [List.map_append, List.filter_append, h.header_eq, h'.header_eq]

theorem leaves_header {v : Vocabulary} {header : List String} (hLines : ∀ line ∈ header, IsLine line.toList)
    (hHeader : ∀ line ∈ header, IsHeader v line) : Leaves v header header := by
  have hRead := map_readBack_eq hLines
  refine ⟨fun line hLine => (hLines line hLine).1, ?_, ?_⟩
  · rw [hRead]
    exact fun line hLine => .inl (hHeader line hLine)
  · rw [hRead, List.filter_eq_self]
    exact fun line hLine => decide_eq_true (hHeader line hLine)

theorem leaves_idle {v : Vocabulary} {written : List String} (hFeed : ∀ line ∈ written, '\n' ∉ line.toList)
    (hIdle : ∀ line ∈ written, ¬ IsHeader v line ∧ Idle v line) : Leaves v written [] where
  feed_not_mem := hFeed
  idle line hLine := by
    obtain ⟨line, hMem, rfl⟩ := List.mem_map.mp hLine
    exact .inr ((idle_congr (trim_readBack line)).mpr (hIdle line hMem).2)
  header_eq := by
    refine List.filter_eq_nil_iff.mpr fun line hLine => ?_
    obtain ⟨line, hMem, rfl⟩ := List.mem_map.mp hLine
    rw [decide_eq_true_eq, isHeader_congr (trim_readBack line)]
    exact (hIdle line hMem).1

theorem idle_empty : ¬ IsHeader (.protobuf suppressed) "" ∧ Idle (.protobuf suppressed) "" := by
  refine ⟨fun h => ?_, idle_of_head? (by decide)⟩
  exact absurd h.head?_mem (by decide)

theorem leaves_empty : Leaves (.protobuf suppressed) [""] [] :=
  leaves_idle (by decide) (List.forall_mem_singleton.mpr idle_empty)

/-- Comments at the top of a file, and the empty line behind them, leave nothing. -/
theorem leaves_provenanceLines
    (h : ∀ comment ∈ l.provenance, '\n' ∉ comment.toList ∧ ¬ "CmdId:".toList <+: comment.toList) :
    Leaves (.protobuf suppressed) l.provenanceLines [] := by
  have hComments : Leaves (.protobuf suppressed) (l.provenance.map ("// " ++ ·)) [] := by
    refine leaves_idle (fun line hLine => ?_) (fun line hLine => ?_)
    all_goals obtain ⟨comment, hComment, rfl⟩ := List.mem_map.mp hLine
    · have hFeed := (h comment hComment).1
      simp [hFeed]
    · exact idle_comment (String.toList_append ..) (h comment hComment).2
  exact hComments.append leaves_empty

/-- What stands in a file in front of the lines of the block. -/
theorem leaves_front (hLayout : l.IsQuiet) {header references : List String}
    (hLines : ∀ line ∈ header, IsLine line.toList) (hHeader : ∀ line ∈ header, IsHeader (.protobuf suppressed) line)
    (hReferences : ∀ name ∈ references, IsIdentifier name) :
    Leaves (.protobuf suppressed) (l.provenanceLines ++ (header ++ [""]) ++ (references.map importLine ++ [""]))
      (header ++ references.map importLine) := by
  have hImports : Leaves (.protobuf suppressed) (references.map importLine) (references.map importLine) := by
    refine leaves_header (fun line hLine => ?_) (fun line hLine => ?_)
    all_goals obtain ⟨name, hName, rfl⟩ := List.mem_map.mp hLine
    · exact isLine_importLine (hReferences name hName)
    · exact isHeader_importLine name
  have hFront := ((leaves_provenanceLines hLayout.provenance).append
    ((leaves_header hLines hHeader).append leaves_empty)).append (hImports.append leaves_empty)
  simp only [List.append_nil, List.nil_append] at hFront
  exact hFront

/-! ## (3) A file reads back -/

theorem isIdentifier_of_mem_references {v : Vocabulary} {p : Share} {b : Block} (h : p.Reads v b) {name : String}
    (hName : name ∈ b.references) : IsIdentifier name := by
  rw [h.references_eq] at hName
  obtain ⟨line, _, hLine⟩ := List.mem_filterMap.mp hName
  exact LineKind.isIdentifier_of_reference? (reference?_eq_some hLine)

/-- The block that is read back from the file of a block with these lines and this command id. -/
def reread (v : Vocabulary) (l : Layout) (p : Share) (id : UInt32) : Block :=
  p.rest.foldl (Block.absorb v) ((l.commandIdLines id).foldl (Block.absorb v) (.opened p.name 0 p.opening))

section
variable {v : Vocabulary} {p : Share} {id : UInt32} {names : List String}
  (hClosed : ClosedLines v names (l.commandIdLines id))
include hClosed

theorem body_reread : (reread v l p id).body =
    p.opening :: (l.commandIdLines id ++ p.rest.filter fun line => ¬ Announces v line) := by
  have hKept : ((l.commandIdLines id).filter fun line => ¬ Announces v line) = l.commandIdLines id :=
    List.filter_eq_self.mpr fun line hLine => decide_eq_true (hClosed.not_announces line hLine)
  rw [reread, Block.foldl_absorb_body, Block.foldl_absorb_body, hKept, List.append_assoc]
  rfl

theorem references_reread {b : Block} (hReads : p.Reads v b) : (reread v l p id).references = b.references := by
  obtain ⟨_, rfl⟩ := hReads
  rw [reread, Block.foldl_absorb_references, Block.foldl_absorb_references, Block.foldl_absorb_references,
    hClosed.references, List.append_nil]
  rfl

theorem mem_nested_reread_iff {b : Block} (hReads : p.Reads v b) (name : String) :
    name ∈ (reread v l p id).nested ↔ name ∈ b.nested ∨ name ∈ names := by
  rw [reread, Block.mem_foldl_absorb_nested, Block.mem_foldl_absorb_nested, hClosed.opens_iff, hReads.mem_nested_iff]
  simp [Block.opened, or_comm]

end

/-- The file of a block that took in the lines of a share. -/
theorem ofText_blockLines (hLayout : l.IsQuiet) {header : List String} {p : Share} {b : Block}
    (hLines : ∀ line ∈ header, IsLine line.toList) (hBody : ∀ line ∈ b.body, IsLine line.toList)
    (hHeader : ∀ line ∈ header, IsHeader (.protobuf suppressed) line) (hFits : p.Fits (.protobuf suppressed))
    (hReads : p.Reads (.protobuf suppressed) b) :
    (Schema.ofText (.protobuf suppressed) (unlines (l.blockLines header b.pruned))).value =
      .ok ⟨header ++ b.pruned.references.map importLine, [reread (.protobuf suppressed) l p b.commandId]⟩ := by
  have hImports : ∀ name ∈ b.pruned.references, IsIdentifier name := fun name hName =>
    isIdentifier_of_mem_references hReads (List.mem_of_mem_filter (List.mem_eraseDups.mp hName))
  have hFront := leaves_front hLayout hLines hHeader hImports
  have hClosed : ClosedLines (.protobuf suppressed) _ (l.commandIdLines b.commandId) :=
    closed_commandIdLines (fun c hc => (hLayout.indent c hc).1) b.commandId
  have hBodyLines : l.bodyLines b.pruned = p.opening :: (l.commandIdLines b.commandId ++
      p.rest.filter fun line => ¬ Announces (.protobuf suppressed) line) := by
    unfold bodyLines
    rw [show b.pruned.body = _ from hReads.body_eq_cons]
    rfl
  have hWritten : ∀ line ∈ l.bodyLines b.pruned, IsLine line.toList := by
    rw [hReads.body_eq_cons] at hBody
    obtain ⟨hOpening, hRest⟩ := List.forall_mem_cons.mp hBody
    rw [hBodyLines]
    refine List.forall_mem_cons.mpr ⟨hOpening, fun line hLine => ?_⟩
    rcases List.mem_append.mp hLine with hLine | hLine
    · exact isLine_commandIdLines (fun hFeed => (hLayout.indent _ hFeed).2 rfl) _ line hLine
    · exact hRest line hLine
  unfold Schema.ofText blockLines
  rw [lines_unlines, List.map_append, map_readBack_eq hWritten, hBodyLines,
    Schema.ofLines_front_append hFront.idle hFits.1.not_isHeader hFits.1
      (hClosed.inside.append hClosed.levels_eq hFits.2.filter),
    hFront.header_eq, List.foldl_append, Block.foldl_absorb_filter, reread]
  intro line hLine
  rcases List.mem_append.mp hLine with hLine | hLine
  · exact hFront.feed_not_mem line hLine
  · exact (hWritten line hLine).1

/-- What is judged is the block without its own nested names among its references. -/
theorem block_of_mem_resolve (selection : Selection) {blocks : List Block} {i : Nat} {b : Block} {judged : JudgedBlock}
    (hBlock : blocks[i]? = some b) (hJudged : (selection.resolve blocks).value[i]? = some judged) :
    judged.block = b.pruned := by
  rw [Selection.getElem?_resolve, hBlock, Option.map_some] at hJudged
  rw [← Option.some.inj hJudged]

/-- The file of any block of a schema reads back as a schema of its own. The imports stand behind the header, and
    the only block has the name of the first one, no command id, the same references before pruning, and the enum
    behind its opening line if there was a command id. -/
theorem render_reads_back (suppressed : List String) (l : Layout) (selection : Selection) {lines : List String}
    {schema : Schema} {i : Nat} {b : Block} {judged : JudgedBlock}
    (hScan : (Schema.ofLines (.protobuf suppressed) lines).value = .ok schema)
    (hBlock : schema.blocks[i]? = some b) (hJudged : (selection.resolve schema.blocks).value[i]? = some judged)
    (hLines : ∀ line ∈ schema.header, IsLine line.toList) (hBody : ∀ line ∈ b.body, IsLine line.toList)
    (hLayout : l.IsQuiet) :
    ∃ b' : Block,
      (Schema.ofText (.protobuf suppressed) (l.render schema.header judged).contents).value =
        .ok ⟨schema.header ++ judged.imports.map (fun name => "import \"" ++ name ++ ".proto\";"), [b']⟩ ∧
      b'.name = b.name ∧ b'.commandId = 0 ∧ b'.references = b.references ∧
      (∀ name, name ∈ b'.nested ↔ name ∈ b.nested ∨ b.commandId ≠ 0 ∧ name = "CmdId") ∧
      (b.commandId = 0 → b'.body = b.body) ∧
      (b.commandId ≠ 0 → ∃ opening rest, b.body = opening :: rest ∧ b'.body = opening ::
        ([l.indent ++ "enum CmdId \x7b", l.indent ++ l.indent ++ "NONE = 0;",
          l.indent ++ l.indent ++ "CMD_ID = " ++ toString b.commandId ++ ";", l.indent ++ "\x7d"] ++ rest)) := by
  obtain ⟨hHeader, hShares⟩ := Scan.exists_share hScan
  obtain ⟨p, hFits, hReads⟩ := hShares b (List.mem_of_getElem? hBlock)
  have hPruned := block_of_mem_resolve selection hBlock hJudged
  have hClosed : ClosedLines (.protobuf suppressed) _ (l.commandIdLines b.commandId) :=
    closed_commandIdLines (fun c hc => (hLayout.indent c hc).1) b.commandId
  have hFile := ofText_blockLines hLayout hLines hBody hHeader hFits hReads
  have hBodyLines := body_reread (p := p) hClosed
  have hImports : importLine = fun name => "import \"" ++ name ++ ".proto\";" := by
    funext name
    simp [importLine, Block.fileNameOf, String.append_assoc]
  refine ⟨reread (.protobuf suppressed) l p b.commandId, ?_, ?_, ?_, references_reread hClosed hReads,
    fun name => ?_, fun hId => ?_, fun hId => ?_⟩
  · rw [← hImports, JudgedBlock.imports, hPruned, ← hFile]
    unfold render
    rw [hPruned]
  · rw [reread, Block.foldl_absorb_name, Block.foldl_absorb_name, hReads.name_eq]
    rfl
  · rw [reread, Block.foldl_absorb_commandId, Block.foldl_absorb_commandId]
    rfl
  · rw [mem_nested_reread_iff hClosed hReads]
    by_cases hId : b.commandId = 0
    · simp [hId]
    · simp [hId, commandIdEnum]
  · rw [hBodyLines, hReads.body_eq_cons, commandIdLines, if_pos hId, List.nil_append]
  · refine ⟨_, _, hReads.body_eq_cons, ?_⟩
    rw [hBodyLines, commandIdLines, if_neg hId, enumLine_eq]

def ping : Block := ⟨"Ping", 7, ["message Ping \x7b", "\tPong pong = 1;", "\x7d"], ["Pong"], []⟩

def pingSchema : Schema := ⟨["syntax = \"proto3\";"], [ping]⟩

/-- A block with a command id. -/
theorem ping_reads_back : ∃ b' : Block,
    (Schema.ofText (.protobuf Vocabulary.defaultSuppressed)
      (Layout.default.render pingSchema.header ⟨ping.pruned, .command⟩).contents).value =
        .ok ⟨["syntax = \"proto3\";", "import \"Pong.proto\";"], [b']⟩ ∧
      b'.name = "Ping" ∧ b'.commandId = 0 ∧ b'.references = ["Pong"] ∧ (∀ name, name ∈ b'.nested ↔ name = "CmdId") ∧
      b'.body = ["message Ping \x7b", "\tenum CmdId \x7b", "\t\tNONE = 0;", "\t\tCMD_ID = 7;", "\t\x7d",
        "\tPong pong = 1;", "\x7d"] := by
  have hScan : (Schema.ofLines (.protobuf Vocabulary.defaultSuppressed) ["syntax = \"proto3\";", "", "// CmdId: 7",
      "message Ping \x7b", "\tPong pong = 1;", "\x7d"]).value = .ok pingSchema := rfl
  have hBlock : pingSchema.blocks[0]? = some ping := rfl
  have hJudged : (Selection.resolve ⟨none, []⟩ pingSchema.blocks).value[0]? = some ⟨ping.pruned, .command⟩ := rfl
  have hLayout : Layout.default.IsQuiet := ⟨List.forall_mem_singleton.mpr (by decide), List.forall_mem_nil _⟩
  obtain ⟨b', hRead, hName, hId, hReferences, hNested, _, hBody⟩ := render_reads_back Vocabulary.defaultSuppressed
    Layout.default ⟨none, []⟩ hScan hBlock hJudged (by decide) (by decide) hLayout
  obtain ⟨opening, rest, hFirst, hLines⟩ := hBody (by decide)
  obtain ⟨rfl, rfl⟩ := List.cons.inj hFirst
  refine ⟨b', hRead, hName, hId, hReferences, fun name => ?_, hLines⟩
  rw [hNested]
  simp [ping]

end Layout

end Unbundle
