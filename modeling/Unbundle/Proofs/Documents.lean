/-
  Unbundle.Proofs.Documents — the documents of a split agree with one another.

  Files, opcode class and tally each pick the blocks that count for them, and each looks at command ids on its own.

  - `eligibility_eq_command_iff`: the verdict on an emitted block tells whether it has a command id.
  - `Tally.foldl_add_blocks`: what files add to a tally. `Tally.ofDocuments_documents`: the tally of a split.
  - `outputs_agree`: files, opcode class and tally are about the same blocks.
-/

import Mathlib.Algebra.Ring.Nat
import Unbundle.Delivery
import Unbundle.Proofs.Opcodes

namespace Unbundle

/-! ## Bytes -/

theorem Text.byteLength_eq_ofList (cs : List Char) : byteLength cs = (String.ofList cs).utf8ByteSize := by
  induction cs with
  | nil => rfl
  | cons c cs ih =>
    rw [byteLength_cons, ih, String.ofList_cons, String.utf8ByteSize_append, String.utf8ByteSize_singleton]

theorem Text.byteLength_toList (text : String) : byteLength text.toList = text.utf8ByteSize := by
  rw [byteLength_eq_ofList, String.ofList_toList]

/-! ## What documents add up to -/

/-- How many bytes a document takes. -/
def Document.size (d : Document) : Nat := d.contents.utf8ByteSize

namespace Tally

theorem bytes_add (t : Tally) (d : Document) : (t.add d).bytes = t.bytes + d.size := by
  rw [Document.size, ← Text.byteLength_toList]
  cases d <;> rfl

/-- Every document counts with its bytes. -/
theorem bytes_foldl_add (t : Tally) (ds : List Document) :
    (ds.foldl add t).bytes = t.bytes + (ds.map Document.size).sum := by
  induction ds generalizing t with
  | nil => rfl
  | cons d ds ih => rw [List.foldl_cons, ih, bytes_add, List.map_cons, List.sum_cons, Nat.add_assoc]

/-- Files count as blocks, and those with a command id once more. -/
theorem foldl_add_blocks (t : Tally) (files : List BlockFile) : (files.map .block).foldl add t =
    { t with
      blockCount := t.blockCount + files.length
      commandCount := t.commandCount + (files.filter fun file => file.commandId != 0).length
      bytes := ((files.map .block).foldl add t).bytes } := by
  induction files generalizing t with
  | nil => rfl
  | cons file files ih =>
    rw [List.map_cons, List.foldl_cons, ih]
    by_cases hId : file.commandId = 0
    · simp [add, hId]
      omega
    · simp [add, hId]
      omega

/-- The whole schema and the opcode class count with their bytes only. -/
theorem ofDocuments_documents (o : SplitResult) : ofDocuments o.documents =
    { blockCount := o.files.length
      commandCount := o.commandFiles.length
      bytes := (o.documents.map Document.size).sum
      wroteCombined := true
      wroteOpcodes := o.opcodes?.isSome } := by
  have hBytes : (ofDocuments o.documents).bytes = (o.documents.map Document.size).sum := by
    rw [ofDocuments, bytes_foldl_add]
    exact Nat.zero_add _
  rw [← hBytes]
  unfold ofDocuments SplitResult.documents
  rw [List.foldl_cons, List.foldl_append, foldl_add_blocks]
  rcases o.opcodes? with _ | text
  · simp [add, empty, SplitResult.commandFiles]
  · simp [add, empty, SplitResult.commandFiles]

end Tally

namespace Splitter

variable {s : Splitter} {g : Glossary} {schema : String} {o : SplitResult}

/-! ## Outputs -/

/-- The verdict on an emitted block tells whether it has a command id. -/
theorem eligibility_eq_command_iff (hRun : (s.run g schema).value = .ok o) {judged : JudgedBlock}
    (h : judged ∈ o.emitted) : judged.eligibility = .command ↔ judged.block.commandId ≠ 0 := by
  obtain ⟨hJudged, hEmitted⟩ := List.mem_filter.mp h
  obtain ⟨parsed, _, rfl⟩ := run_eq_ok_iff.mp hRun
  rw [value_layOut] at hJudged
  obtain ⟨_, _, _, hVerdict⟩ := Selection.exists_of_mem_resolve s.selection parsed.blocks hJudged
  rw [JudgedBlock.isEmitted, hVerdict] at hEmitted
  rw [hVerdict]
  exact s.selection.judge_eq_command_iff hEmitted

/-- A file is that of a block: it has the name and the command id of the block, and a command id if the block was
    judged to be a command. -/
structure IsFileOf (file : BlockFile) (judged : JudgedBlock) : Prop where
  name : file.blockName = judged.block.name
  commandId : file.commandId = judged.block.commandId
  command : file.commandId ≠ 0 ↔ judged.eligibility = .command

/-- The outputs of a split agree. Its files are those of the emitted blocks, in their order. The opcode table has the
    names and ids of the files with a command id, and the class declares them all. The documents are the whole schema,
    the files and the class, and the tally of the documents counts files, entries of the table, and all bytes. -/
theorem outputs_agree (hRun : (s.run g schema).value = .ok o) :
    List.Forall₂ IsFileOf o.files o.emitted ∧
    (OpcodeTable.ofBlocks o.blocks).entries.Perm (o.commandFiles.map fun file => (file.blockName, file.commandId)) ∧
    (∀ package, s.opcodePackage? = some package → ∃ java, o.opcodes? = some java ∧
      ∀ file ∈ o.commandFiles, (file.blockName, file.commandId.toNat) ∈ OpcodeTable.constants java) ∧
    o.documents = .combined "replace_output.proto" o.combined ::
      (o.files.map .block ++ o.opcodes?.toList.map (.opcodes "PacketOpcodes.java")) ∧
    Tally.ofDocuments o.documents =
      { blockCount := o.files.length
        commandCount := (OpcodeTable.ofBlocks o.blocks).entries.length
        bytes := (o.documents.map Document.size).sum
        wroteCombined := true
        wroteOpcodes := s.opcodePackage?.isSome } := by
  have hPerm := perm_entries hRun
  refine ⟨?_, hPerm, ?_, rfl, ?_⟩
  · rw [files_eq hRun, List.forall₂_map_left_iff, List.forall₂_same]
    intro judged hJudged
    exact ⟨rfl, rfl, (eligibility_eq_command_iff hRun hJudged).symm⟩
  · intro package hPackage
    obtain ⟨java, hJava, hConstants⟩ := perm_constants hRun hPackage
    refine ⟨java, hJava, ?_⟩
    intro file hFile
    rw [hConstants.mem_iff]
    exact List.mem_append_right _ (List.mem_cons_of_mem _ (List.mem_map_of_mem hFile))
  · rw [Tally.ofDocuments_documents, hPerm.length_eq, List.length_map, opcodes_eq hRun, Option.isSome_map]

/-- Two files, one of them that of a constant. -/
theorem relay_outputs_agree : ∃ (o : SplitResult) (java : String),
    (coded.run .empty (Text.unlines relayLines)).value = .ok o ∧ List.Forall₂ IsFileOf o.files relay ∧
    o.opcodes? = some java ∧ ("Ping", 7) ∈ OpcodeTable.constants java ∧
    (Tally.ofDocuments o.documents).blockCount = 2 ∧ (Tally.ofDocuments o.documents).commandCount = 1 := by
  obtain ⟨o, hRun, hBlocks⟩ := run_relay
  obtain ⟨hFiles, hTable, hClass, _, hTally⟩ := outputs_agree hRun
  obtain ⟨java, hJava, hConstants⟩ := hClass "package game;" rfl
  have hEmitted : o.emitted = relay := by
    rw [SplitResult.emitted, hBlocks]
    rfl
  have hEntries : (OpcodeTable.ofBlocks o.blocks).entries = [("Ping", 7)] := by
    rw [hBlocks]
    decide +kernel
  rw [hEmitted] at hFiles
  rw [hEntries] at hTable hTally
  obtain ⟨file, hFile, hPair⟩ := List.mem_map.mp (hTable.subset (List.mem_singleton_self _))
  obtain ⟨hName, hId⟩ := Prod.mk.inj hPair
  have hConstant : ("Ping", 7) ∈ OpcodeTable.constants java := by
    have hDeclared := hConstants file hFile
    rw [hName, hId] at hDeclared
    exact hDeclared
  refine ⟨o, java, hRun, hFiles, hJava, hConstant, ?_, ?_⟩
  · rw [hTally]
    exact hFiles.length_eq
  · rw [hTally]
    rfl

end Splitter

end Unbundle
