/-
  Unbundle.Proofs.Opcodes — the names and numbers of command ids, as they stand in what is written.

  (1) `assignment?_eq_some`. A line that gives a name a number reads back as both.

  (2) `constants_renderJava`. So the class declares `NONE` and the entries of the table, behind what the line in front
  of it declares.

  (3) `perm_entries`, `perm_constants`. The entries are those of the files with a command id. `constants_nodup_iff`: the
  names of a class are distinct if those of these files are, and none of them is `NONE`. Blocks may share a name, so a
  class may declare a name twice (`not_constantsNodup`).

  (4) `numbers_fit_iff`. The numbers written are the command ids of the files. They take 32 bits, and one bit less is
  what enums and classes have room for (`not_numbersFit`).
-/

import Unbundle.Proofs.Names

namespace Unbundle

open Line Text

/-! ## (1) A name and its number -/

/-- The name and the number of a line `start name = number;`. -/
def Text.assignment? (start line : String) : Option (String × Nat) := do
  let rest ← LineKind.after? start.toList line.toList
  let (name, rest) ← takeIdentifier? rest
  let rest ← LineKind.after? " = ".toList rest
  if rest.takeWhile Char.isDigit ≠ [] ∧ rest.dropWhile Char.isDigit = [';'] then
    return (String.ofList name, Nat.ofDigitChars 10 (rest.takeWhile Char.isDigit) 0)
  else none

theorem Text.assignment?_eq_some {start name : String} (hName : IsIdentifier name) (n : Nat) :
    assignment? start (start ++ name ++ " = " ++ toString n ++ ";") = some (name, n) := by
  have hText : (start ++ name ++ " = " ++ toString n ++ ";").toList =
      start.toList ++ (name.toList ++ (" = ".toList ++ (Nat.toDigits 10 n ++ [';']))) := by
    simp [String.toList_append]
  have hStart := LineKind.after?_eq_some_iff.mpr hText
  have hTake : takeIdentifier? (name.toList ++ (" = ".toList ++ (Nat.toDigits 10 n ++ [';']))) =
      some (name.toList, " = ".toList ++ (Nat.toDigits 10 n ++ [';'])) :=
    takeIdentifier?_append hName.1 hName.2 fun c hc => by cases hc; decide
  have hEquals : LineKind.after? " = ".toList (" = ".toList ++ (Nat.toDigits 10 n ++ [';'])) =
      some (Nat.toDigits 10 n ++ [';']) := LineKind.after?_eq_some_iff.mpr rfl
  have hDigits : ∀ c ∈ Nat.toDigits 10 n, c.isDigit = true :=
    fun c hc => Nat.isDigit_of_mem_toDigits (by decide) (by decide) hc
  have hRun : (Nat.toDigits 10 n ++ [';']).takeWhile Char.isDigit = Nat.toDigits 10 n := by
    rw [List.takeWhile_append_of_pos hDigits, List.takeWhile_cons_of_neg (by decide), List.append_nil]
  have hEnd : (Nat.toDigits 10 n ++ [';']).dropWhile Char.isDigit = [';'] := by
    rw [List.dropWhile_append_of_pos hDigits, List.dropWhile_cons_of_neg (by decide)]
  unfold assignment?
  rw [hStart, Option.bind_eq_bind, Option.bind_some, hTake, Option.bind_eq_bind, Option.bind_some]
  simp only [hEquals, Option.bind_some]
  rw [hRun, hEnd, if_pos ⟨Nat.toDigits_ne_nil, rfl⟩, Nat.ofDigitChars_toDigits (by decide) (by decide),
    String.ofList_toList]
  rfl

/-! ## (2) The constants of a class -/

namespace OpcodeTable

/-- The constants that the lines of a text declare, each with its number. -/
def constants (text : String) : List (String × Nat) :=
  (Text.lines text).filterMap (assignment? "\tpublic static final int ")

theorem constants_unlines_append (ls ms : List String) :
    constants (Text.unlines (ls ++ ms)) = constants (Text.unlines ls) ++ constants (Text.unlines ms) := by
  unfold constants
  rw [lines_unlines_append, List.filterMap_append]

theorem isLine_constantLine {name : String} (hName : IsIdentifier name) (id : UInt32) :
    IsLine (constantLine name id).toList := by
  have hDigits : '\n' ∉ (toString id).toList := fun hMem => absurd (Layout.isDigit_of_mem_toString hMem) (by decide)
  refine isLine_append ?_ (by decide)
  simp [hDigits, feed_not_mem_of_isIdentifier hName]

theorem assignment?_constantLine {name : String} (hName : IsIdentifier name) (id : UInt32) :
    assignment? "\tpublic static final int " (constantLine name id) = some (name, id.toNat) :=
  assignment?_eq_some hName id.toNat

/-- A class declares `NONE` and the entries of its table, behind what the line in front of it declares. -/
theorem constants_renderJava (t : OpcodeTable) (package : String) (hNames : ∀ entry ∈ t.entries, IsIdentifier entry.1) :
    constants (t.renderJava package) =
      constants (Text.unlines [package]) ++ ("NONE", 0) :: t.entries.map fun entry => (entry.1, entry.2.toNat) := by
  have hFront : constants (Text.unlines (if package = "" then [] else [package, ""])) =
      constants (Text.unlines [package]) := by
    split
    · rename_i hEmpty
      rw [hEmpty]
      decide
    · have hBlank : constants (Text.unlines [""]) = [] := by decide
      rw [show [package, ""] = [package] ++ [""] from rfl, constants_unlines_append, hBlank, List.append_nil]
  have hHead : constants (Text.unlines ["public class PacketOpcodes \x7b", "\t// Opcodes", constantLine "NONE" 0]) =
      [("NONE", 0)] := by decide +kernel
  have hEntries : constants (Text.unlines (t.entries.map fun e => constantLine e.1 e.2)) =
      t.entries.map fun entry => (entry.1, entry.2.toNat) := by
    unfold constants
    have hLines : ∀ line ∈ t.entries.map fun e => constantLine e.1 e.2, IsLine line.toList := by
      intro line hLine
      obtain ⟨entry, hEntry, rfl⟩ := List.mem_map.mp hLine
      exact isLine_constantLine (hNames entry hEntry) entry.2
    rw [lines_unlines_of_isLine hLines, List.filterMap_map, ← List.filterMap_eq_map]
    exact List.filterMap_congr fun entry hEntry => assignment?_constantLine (hNames entry hEntry) entry.2
  have hEnd : constants (Text.unlines ["\x7d"]) = [] := by decide
  unfold renderJava javaLines
  rw [constants_unlines_append, constants_unlines_append, constants_unlines_append, hFront, hHead, hEntries, hEnd]
  simp

end OpcodeTable

/-! ## (3) The names of constants -/

/-- The files of the blocks with a command id. -/
def SplitResult.commandFiles (o : SplitResult) : List BlockFile := o.files.filter fun file => file.commandId != 0

namespace Splitter

variable {s : Splitter} {g : Glossary} {schema : String} {o : SplitResult}

/-- Files and table choose their blocks each on its own, and come to the same. -/
theorem perm_entries (hRun : (s.run g schema).value = .ok o) : (OpcodeTable.ofBlocks o.blocks).entries.Perm
    (o.commandFiles.map fun file => (file.blockName, file.commandId)) := by
  have hChosen : o.commandFiles.map (fun file => (file.blockName, file.commandId)) =
      (o.blocks.filter fun b => b.isEmitted && b.block.hasCommandId).map fun b => (b.block.name, b.block.commandId) := by
    rw [SplitResult.commandFiles, files_eq hRun, SplitResult.emitted, List.filter_map, List.filter_filter, List.map_map]
    congr 1
    exact List.filter_congr fun b _ => Bool.and_comm _ _
  rw [hChosen]
  exact List.mergeSort_perm _ _

/-- What the class of a split declares: `NONE` and one constant for each file with a command id, behind what the line in
    front of it declares. -/
theorem perm_constants (hRun : (s.run g schema).value = .ok o) {package : String}
    (hEnabled : s.opcodePackage? = some package) : ∃ java, o.opcodes? = some java ∧
      (OpcodeTable.constants java).Perm (OpcodeTable.constants (Text.unlines [package]) ++
        ("NONE", 0) :: o.commandFiles.map fun file => (file.blockName, file.commandId.toNat)) := by
  have hNames : ∀ entry ∈ (OpcodeTable.ofBlocks o.blocks).entries, IsIdentifier entry.1 := by
    intro entry hEntry
    obtain ⟨judged, hJudged, hName⟩ := OpcodeTable.exists_of_mem_entries hEntry
    rw [← hName]
    exact (hasIdentifiers_of_mem_blocks hRun hJudged).name
  have hEntries := (perm_entries hRun).map fun entry => (entry.1, entry.2.toNat)
  rw [List.map_map] at hEntries
  refine ⟨_, by rw [opcodes_eq hRun, hEnabled]; rfl, ?_⟩
  rw [OpcodeTable.constants_renderJava _ _ hNames]
  exact (hEntries.cons ("NONE", 0)).append_left _

theorem perm_names (hRun : (s.run g schema).value = .ok o) {package : String}
    (hEnabled : s.opcodePackage? = some package) : ∃ java, o.opcodes? = some java ∧
      ((OpcodeTable.constants java).map Prod.fst).Perm ((OpcodeTable.constants (Text.unlines [package])).map Prod.fst ++
        "NONE" :: o.commandFiles.map BlockFile.blockName) := by
  obtain ⟨java, hJava, hConstants⟩ := perm_constants hRun hEnabled
  have hNames := hConstants.map Prod.fst
  rw [List.map_append, List.map_cons, List.map_map] at hNames
  exact ⟨java, hJava, hNames⟩

/-- The class of a split declares every name once if the names of the files with a command id are distinct and none of
    them is `NONE`. What the line in front of the class declares counts too. -/
theorem constants_nodup_iff (hRun : (s.run g schema).value = .ok o) {package : String}
    (hEnabled : s.opcodePackage? = some package) : ∃ java, o.opcodes? = some java ∧
      (((OpcodeTable.constants java).map Prod.fst).Nodup ↔ ((OpcodeTable.constants (Text.unlines [package])).map Prod.fst ++
        "NONE" :: o.commandFiles.map BlockFile.blockName).Nodup) := by
  obtain ⟨java, hJava, hNames⟩ := perm_names hRun hEnabled
  exact ⟨java, hJava, hNames.nodup_iff⟩

/-- No extra header, and an opcode class. -/
def coded : Splitter := { default with opcodePackage? := some "package game;" }

theorem run_coded {lines : List String} {judged : List JudgedBlock} (hLines : ∀ line ∈ lines, IsLine line.toList)
    (hParsed : (Schema.ofLines coded.vocabulary lines).value = .ok ⟨[], judged.map JudgedBlock.block⟩)
    (hJudged : (coded.selection.resolve (judged.map JudgedBlock.block)).value = judged) :
    ∃ o : SplitResult, (coded.run .empty (Text.unlines lines)).value = .ok o ∧ o.blocks = judged := by
  obtain ⟨o, hRun, _, hBlocks⟩ := exists_run_unlines hLines hParsed
  exact ⟨o, hRun, hBlocks.trans hJudged⟩

/-- A block with a command id, and one that it imports. -/
def relay : List JudgedBlock :=
  [⟨⟨"Ping", 7, ["message Ping \x7b", "  Leaf leaf = 1;", "\x7d"], ["Leaf"], []⟩, .command⟩,
    ⟨⟨"Leaf", 0, ["message Leaf \x7b", "\x7d"], [], []⟩, .dependency⟩]

def relayLines : List String :=
  ["// CmdId: 7", "message Ping \x7b", "  Leaf leaf = 1;", "\x7d", "message Leaf \x7b", "\x7d"]

theorem run_relay : ∃ o : SplitResult, (coded.run .empty (Text.unlines relayLines)).value = .ok o ∧
    o.blocks = relay :=
  run_coded (by decide) rfl (by decide +kernel)

/-- Of two files, one is that of a constant. -/
theorem relay_constants_nodup : ∃ (o : SplitResult) (java : String),
    (coded.run .empty (Text.unlines relayLines)).value = .ok o ∧ coded.opcodePackage? = some "package game;" ∧
    o.opcodes? = some java ∧ ((OpcodeTable.constants java).map Prod.fst).Nodup := by
  obtain ⟨o, hRun, hBlocks⟩ := run_relay
  obtain ⟨java, hJava, hIff⟩ := constants_nodup_iff hRun rfl
  have hFiles : o.commandFiles.map BlockFile.blockName = ["Ping"] := by
    rw [SplitResult.commandFiles, files_eq hRun, SplitResult.emitted, hBlocks]
    rfl
  refine ⟨o, java, hRun, rfl, hJava, hIff.mpr ?_⟩
  rw [hFiles]
  decide

/-- Two blocks of one name. -/
def twins : List JudgedBlock :=
  [⟨⟨"Ping", 7, ["message Ping \x7b", "\x7d"], [], []⟩, .command⟩,
    ⟨⟨"Ping", 8, ["message Ping \x7b", "\x7d"], [], []⟩, .command⟩]

def twinsLines : List String :=
  ["// CmdId: 7", "message Ping \x7b", "\x7d", "// CmdId: 8", "message Ping \x7b", "\x7d"]

theorem run_twins : ∃ o : SplitResult, (coded.run .empty (Text.unlines twinsLines)).value = .ok o ∧
    o.blocks = twins :=
  run_coded (by decide) rfl (by decide +kernel)

/-- A class may declare a name twice. -/
theorem not_constantsNodup : ¬ ∀ (s : Splitter) (g : Glossary) (schema : String) (o : SplitResult) (java : String),
    (s.run g schema).value = .ok o → o.opcodes? = some java → ((OpcodeTable.constants java).map Prod.fst).Nodup := by
  intro h
  obtain ⟨o, hRun, hBlocks⟩ := run_twins
  have hEnabled : coded.opcodePackage? = some "package game;" := rfl
  obtain ⟨java, hJava, hNames⟩ := perm_names hRun hEnabled
  have hFiles : o.commandFiles.map BlockFile.blockName = ["Ping", "Ping"] := by
    rw [SplitResult.commandFiles, files_eq hRun, SplitResult.emitted, hBlocks]
    rfl
  rw [hFiles] at hNames
  exact absurd (hNames.nodup_iff.mp (h coded .empty _ o java hRun hJava)) (by decide)

end Splitter

/-! ## (4) The numbers written -/

namespace Layout

/-- The enum that gives the number `n` as a command id. -/
def idEnum (l : Layout) (n : Nat) : List String :=
  [ l.indent ++ "enum " ++ commandIdEnum ++ " \x7b",
    l.indent ++ l.indent ++ "NONE = 0;",
    l.indent ++ l.indent ++ "CMD_ID = " ++ toString n ++ ";",
    l.indent ++ "\x7d" ]

/-- The number `n` stands in the file of a block as its command id: its enum stands between the opening line of the
    block and the other ones. -/
def WritesId (l : Layout) (header : List String) (b : JudgedBlock) (n : Nat) : Prop :=
  ∃ opening rest, b.block.body = opening :: rest ∧ (l.render header b).contents =
    Text.unlines (l.provenanceLines ++ (header ++ [""]) ++ (b.imports.map importLine ++ [""]) ++
      opening :: (l.idEnum n ++ rest))

theorem idEnum_inj {l : Layout} {n m : Nat} (h : Text.unlines (l.idEnum n) = Text.unlines (l.idEnum m)) : n = m := by
  have hText : toString n = toString m := by
    simpa [idEnum, Text.unlines, String.append_assoc] using h
  have hDigits : Nat.toDigits 10 n = Nat.toDigits 10 m := by
    rw [← Nat.toList_repr, ← Nat.toList_repr]
    exact congrArg String.toList hText
  have hValue := congrArg (Nat.ofDigitChars 10 · 0) hDigits
  simpa using hValue

/-- The only number that a file gives as a command id is that of its block. -/
theorem writesId_iff {l : Layout} {header : List String} {b : JudgedBlock} (hBody : b.block.body ≠ []) {n : Nat} :
    l.WritesId header b n ↔ b.block.commandId ≠ 0 ∧ n = b.block.commandId.toNat := by
  obtain ⟨opening, rest, hLines⟩ := List.exists_cons_of_ne_nil hBody
  have hContents : (l.render header b).contents = Text.unlines (l.provenanceLines ++ (header ++ [""]) ++
      (b.imports.map importLine ++ [""]) ++ opening :: (l.commandIdLines b.block.commandId ++ rest)) := by
    simp only [render, blockLines, bodyLines, hLines]
    rfl
  constructor
  · intro h
    obtain ⟨opening', rest', hLines', hWritten⟩ := h
    obtain ⟨rfl, rfl⟩ := List.cons.inj (hLines.symm.trans hLines')
    have hEnum : Text.unlines (l.commandIdLines b.block.commandId) = Text.unlines (l.idEnum n) := by
      rw [hContents] at hWritten
      simpa only [unlines_append, ← List.singleton_append (l := _ ++ _), String.append_right_inj,
        String.append_left_inj] using hWritten
    by_cases hId : b.block.commandId = 0
    · -- a file without the enum is shorter
      rw [commandIdLines, if_pos hId] at hEnum
      have hNone := congrArg String.toList hEnum
      simp [idEnum, Text.unlines] at hNone
    · rw [commandIdLines, if_neg hId] at hEnum
      exact ⟨hId, (idEnum_inj hEnum).symm⟩
  · intro h
    obtain ⟨hId, rfl⟩ := h
    refine ⟨opening, rest, hLines, ?_⟩
    rw [hContents, commandIdLines, if_neg hId]
    rfl

end Layout

namespace Splitter

variable {s : Splitter} {g : Glossary} {schema : String} {o : SplitResult}

/-- Every block has its opening line. -/
theorem body_ne_nil_of_mem_blocks (hRun : (s.run g schema).value = .ok o) {judged : JudgedBlock}
    (h : judged ∈ o.blocks) : judged.block.body ≠ [] := by
  obtain ⟨p, b, _, hReads, hBlock⟩ := exists_share_of_mem_blocks hRun h
  have hBody : judged.block.body = b.body := by rw [hBlock]; rfl
  rw [hBody, hReads.body_eq_cons]
  exact List.cons_ne_nil _ _

/-- A number that a split writes for a command id: in the file of a block, or in the opcode class. -/
def WritesNumber (s : Splitter) (o : SplitResult) (n : Nat) : Prop :=
  (∃ judged ∈ o.emitted, s.layout.WritesId o.header judged n) ∨
    ∃ java, o.opcodes? = some java ∧ n ∈ (OpcodeTable.constants java).map Prod.snd

/-- The largest number that a constant of a Protocol Buffers enum may have, and an `int` of Java. -/
def largestConstant : Nat := 2147483647

theorem exists_writesId_iff (hRun : (s.run g schema).value = .ok o) {n : Nat} :
    (∃ judged ∈ o.emitted, s.layout.WritesId o.header judged n) ↔
      ∃ file ∈ o.files, file.commandId ≠ 0 ∧ n = file.commandId.toNat := by
  simp only [files_eq hRun, List.mem_map, exists_exists_and_eq_and]
  refine exists_congr fun judged => and_congr_right fun hEmitted => ?_
  exact Layout.writesId_iff (body_ne_nil_of_mem_blocks hRun (List.mem_of_mem_filter hEmitted))

theorem mem_numbers_iff (hRun : (s.run g schema).value = .ok o) {package : String}
    (hEnabled : s.opcodePackage? = some package) : ∃ java, o.opcodes? = some java ∧
      ∀ n, n ∈ (OpcodeTable.constants java).map Prod.snd ↔
        (∃ file ∈ o.files, file.commandId ≠ 0 ∧ n = file.commandId.toNat) ∨
          n = 0 ∨ n ∈ (OpcodeTable.constants (Text.unlines [package])).map Prod.snd := by
  obtain ⟨java, hJava, hConstants⟩ := perm_constants hRun hEnabled
  refine ⟨java, hJava, ?_⟩
  intro n
  have hFiles : n ∈ o.commandFiles.map (fun file => file.commandId.toNat) ↔
      ∃ file ∈ o.files, file.commandId ≠ 0 ∧ n = file.commandId.toNat := by
    simp only [SplitResult.commandFiles, List.mem_map, List.mem_filter, bne_iff_ne, and_assoc, eq_comm (a := n)]
  have hNumbers := (hConstants.map Prod.snd).mem_iff (a := n)
  rw [List.map_append, List.map_cons, List.map_map, List.mem_append, List.mem_cons] at hNumbers
  rw [hNumbers, ← hFiles, or_comm, or_comm (a := n = 0), or_assoc]
  rfl

/-- A number is written for a command id if it is that of a file, or 0 in the class, or what the line in front of the
    class declares. -/
theorem writesNumber_iff (hRun : (s.run g schema).value = .ok o) {n : Nat} : s.WritesNumber o n ↔
    (∃ file ∈ o.files, file.commandId ≠ 0 ∧ n = file.commandId.toNat) ∨
    ∃ package, s.opcodePackage? = some package ∧
      (n = 0 ∨ n ∈ (OpcodeTable.constants (Text.unlines [package])).map Prod.snd) := by
  unfold WritesNumber
  rw [exists_writesId_iff hRun]
  rcases hPackage : s.opcodePackage? with _ | package
  · rw [opcodes_eq hRun, hPackage]
    simp
  · -- the class repeats the numbers of the files
    obtain ⟨java, hJava, hNumbers⟩ := mem_numbers_iff hRun hPackage
    simp only [hJava, Option.some.injEq, exists_eq_left', hNumbers, or_self_left]

/-- The numbers written for command ids have room if the command ids of the files take 31 bits. The line in front of
    the class may declare a larger one still. -/
theorem numbers_fit_iff (hRun : (s.run g schema).value = .ok o) :
    o.files = o.emitted.map (s.layout.render o.header) ∧
    ((∀ n, s.WritesNumber o n → n ≤ largestConstant) ↔ (∀ file ∈ o.files, file.commandId.toNat ≤ largestConstant) ∧
      ∀ package, s.opcodePackage? = some package →
        ∀ constant ∈ OpcodeTable.constants (Text.unlines [package]), constant.2 ≤ largestConstant) := by
  refine ⟨files_eq hRun, ?_⟩
  constructor
  · intro hFits
    constructor
    · intro file hFile
      by_cases hId : file.commandId = 0
      · rw [hId]
        exact Nat.zero_le _
      · exact hFits _ ((writesNumber_iff hRun).mpr (.inl ⟨file, hFile, hId, rfl⟩))
    · intro package hPackage constant hConstant
      have hNumber := List.mem_map_of_mem (f := Prod.snd) hConstant
      exact hFits _ ((writesNumber_iff hRun).mpr (.inr ⟨package, hPackage, .inr hNumber⟩))
  · intro hBoth n hWrites
    obtain ⟨hFiles, hFront⟩ := hBoth
    obtain ⟨file, hFile, _, rfl⟩ | ⟨package, hPackage, rfl | hNumber⟩ := (writesNumber_iff hRun).mp hWrites
    · exact hFiles file hFile
    · exact Nat.zero_le _
    · obtain ⟨constant, hConstant, rfl⟩ := List.mem_map.mp hNumber
      exact hFront package hPackage constant hConstant

/-- A file without a command id, and one with a small one. -/
theorem relay_numbers_fit : ∃ o : SplitResult, (coded.run .empty (Text.unlines relayLines)).value = .ok o ∧
    coded.WritesNumber o 7 ∧ ∀ n, coded.WritesNumber o n → n ≤ largestConstant := by
  obtain ⟨o, hRun, hBlocks⟩ := run_relay
  have hFiles : o.files = o.emitted.map (coded.layout.render o.header) := (numbers_fit_iff hRun).1
  have hIds : o.files.map BlockFile.commandId = [7, 0] := by
    rw [hFiles, SplitResult.emitted, hBlocks]
    rfl
  refine ⟨o, hRun, (writesNumber_iff hRun).mpr (.inl ?_), (numbers_fit_iff hRun).2.mpr ⟨?_, ?_⟩⟩
  · obtain ⟨file, hFile, hId⟩ := List.mem_map.mp (show 7 ∈ o.files.map BlockFile.commandId by rw [hIds]; decide)
    exact ⟨file, hFile, by rw [hId]; decide, by rw [hId]; decide⟩
  · intro file hFile
    have hId : file.commandId ∈ o.files.map BlockFile.commandId := List.mem_map_of_mem hFile
    rw [hIds] at hId
    simp only [List.mem_cons, List.not_mem_nil, or_false] at hId
    rcases hId with hId | hId
    · rw [hId]
      exact Nat.le_of_ble_eq_true rfl
    · rw [hId]
      exact Nat.zero_le _
  · intro package hPackage
    obtain rfl := Option.some.inj hPackage
    decide

/-- A block with a command id of 32 bits. -/
def wide : List JudgedBlock := [⟨⟨"Ping", 2147483648, ["message Ping \x7b", "\x7d"], [], []⟩, .command⟩]

def wideLines : List String := ["// CmdId: 2147483648", "message Ping \x7b", "\x7d"]

theorem run_wide : ∃ o : SplitResult, (coded.run .empty (Text.unlines wideLines)).value = .ok o ∧
    o.blocks = wide :=
  run_coded (by decide) rfl (by decide +kernel)

/-- A number may be written that has no room. -/
theorem not_numbersFit : ¬ ∀ (s : Splitter) (g : Glossary) (schema : String) (o : SplitResult),
    (s.run g schema).value = .ok o → ∀ n, s.WritesNumber o n → n ≤ largestConstant := by
  intro h
  obtain ⟨o, hRun, hBlocks⟩ := run_wide
  have hEmitted : o.emitted = wide := by
    rw [SplitResult.emitted, hBlocks]
    decide
  have hWrites : coded.WritesNumber o 2147483648 := by
    refine .inl ⟨wide.head (by decide), by rw [hEmitted]; decide, ?_⟩
    exact (Layout.writesId_iff (by decide)).mpr (by decide)
  exact absurd (h coded .empty _ o hRun _ hWrites) (by decide)

end Splitter

end Unbundle
