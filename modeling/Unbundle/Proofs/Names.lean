/-
  Unbundle.Proofs.Names — all names that leave a schema are identifiers.

  Names are read off lines as runs of letters, digits and underscores, whatever else a line holds, and clear names may
  hold anything. So nothing that comes in the place of an obfuscated name can make a file appear elsewhere than in its
  directory.

  - `hasIdentifiers_of_reads`: the name of a block, its nested names and the types it names; these are of the custom
    class too.
  - `isPlain_append`: an identifier with an ending is the name of a file in any directory.
  - `names_are_identifiers`: hence the names of files, of imports and of opcode constants, and the places of files.
-/

import Unbundle.Digest
import Unbundle.Proofs.Plan
import Unbundle.Proofs.Splitter
import Unbundle.Proofs.Tree.Files

namespace Unbundle

open Line Text

variable {v : Vocabulary}

/-! ## Names in a block -/

/-- A line names a type of the custom class. -/
theorem LineKind.classify_of_reference? {t : List Char} {name : String} (h : reference? v t = some name) :
    v.classify name = .custom := by
  unfold reference? at h
  split at h
  · cases h
  split at h
  · cases h
  dsimp only at h
  split at h
  · rename_i hClass
    cases h
    exact hClass
  · exact beq_iff_eq.mp (Option.filter_eq_some_iff.mp h).2
  · exact beq_iff_eq.mp (Option.filter_eq_some_iff.mp h).2
  all_goals cases h

/-- All names that a block knows are identifiers, and the types among them are of the custom class. -/
structure Block.HasIdentifiers (v : Vocabulary) (b : Block) : Prop where
  name : IsIdentifier b.name
  nested : ∀ name ∈ b.nested, IsIdentifier name
  references : ∀ name ∈ b.references, IsIdentifier name ∧ v.classify name = .custom

theorem Line.Opens.isIdentifier {line name : String} (h : Opens v line name) : IsIdentifier name := by
  obtain ⟨_, word, blanks, rest, _, _, _, _, hName, _⟩ := h
  exact hName

/-- Names come from lines that open a level, types from lines that do not. -/
theorem hasIdentifiers_of_reads {p : Share} {b : Block} (hFits : p.Fits v) (hReads : p.Reads v b) :
    b.HasIdentifiers v where
  name := hReads.name_eq ▸ hFits.1.isIdentifier
  nested name h := by
    obtain ⟨line, _, hOpens⟩ := hReads.mem_nested_iff.mp h
    exact hOpens.isIdentifier
  references name h := by
    rw [hReads.references_eq] at h
    obtain ⟨line, _, hLine⟩ := List.mem_filterMap.mp h
    have hNamed := reference?_eq_some hLine
    exact ⟨LineKind.isIdentifier_of_reference? hNamed, LineKind.classify_of_reference? hNamed⟩

/-- What is pruned away is not renamed. -/
theorem Block.HasIdentifiers.pruned {b : Block} (h : b.HasIdentifiers v) : b.pruned.HasIdentifiers v where
  name := h.name
  nested := h.nested
  references name hName := h.references name (List.mem_of_mem_filter (List.mem_eraseDups.mp hName))

theorem Splitter.hasIdentifiers_of_mem_blocks {s : Splitter} {g : Glossary} {schema : String} {o : SplitResult}
    (hRun : (s.run g schema).value = .ok o) {judged : JudgedBlock} (h : judged ∈ o.blocks) :
    judged.block.HasIdentifiers s.vocabulary := by
  obtain ⟨p, b, hFits, hReads, hBlock⟩ := exists_share_of_mem_blocks hRun h
  rw [hBlock]
  exact (hasIdentifiers_of_reads hFits hReads).pruned

theorem OpcodeTable.exists_of_mem_entries {blocks : List JudgedBlock} {entry : String × UInt32}
    (h : entry ∈ (ofBlocks blocks).entries) : ∃ judged ∈ blocks, judged.block.name = entry.1 := by
  obtain ⟨judged, hJudged, rfl⟩ := List.mem_map.mp (List.mem_mergeSort.mp h)
  exact ⟨judged, List.mem_of_mem_filter hJudged, rfl⟩

/-! ## Names of files -/

theorem slash_not_mem_of_isIdentifier {name : String} (h : IsIdentifier name) : '/' ∉ name.toList :=
  fun hMem => absurd (h.2 _ hMem) (by decide)

/-- No name that leads nowhere or up starts like an identifier. -/
theorem isPlain_append {name rest : String} (h : IsIdentifier name) (hRest : '/' ∉ rest.toList) :
    Path.IsPlain (name ++ rest) := by
  constructor
  · rw [String.toList_append, List.mem_append, not_or]
    exact ⟨slash_not_mem_of_isIdentifier h, hRest⟩
  · obtain ⟨c, cs, hName⟩ := List.exists_cons_of_ne_nil h.1
    have hFirst : isIdentifierChar c = true := h.2 c (by rw [hName]; exact List.mem_cons_self)
    have hHead : (name ++ rest).toList.head? = some c := by rw [String.toList_append, hName]; rfl
    intro hMem
    simp only [List.mem_cons, List.not_mem_nil, or_false] at hMem
    rcases hMem with hEq | hEq | hEq
    all_goals rw [hEq] at hHead
    · cases hHead
    · cases hHead
      cases hFirst
    · cases hHead
      cases hFirst

theorem isIdentifierChar_of_mem_hexByte {b : UInt8} {c : Char} (h : c ∈ (Digest.hexByte b).toList) :
    isIdentifierChar c = true := by
  have hDigits : ∀ n < 256, ((Nat.toDigits 16 (256 + n)).drop 1).all isIdentifierChar = true := by decide +kernel
  rw [Digest.hexByte, String.toList_ofList] at h
  exact List.all_eq_true.mp (hDigits b.toNat b.toNat_lt) c h

theorem slash_not_mem_short (text : String) : '/' ∉ (Digest.short text).toList := by
  intro hMem
  obtain ⟨part, hPart, hMem⟩ : ∃ part ∈ (Digest.wordBytes (Digest.words (toBytes text))[0]).map Digest.hexByte,
      '/' ∈ part.toList := by
    simpa [Digest.short, String.toList_join] using hMem
  obtain ⟨b, _, rfl⟩ := List.mem_map.mp hPart
  exact absurd (isIdentifierChar_of_mem_hexByte hMem) (by decide)

/-! ## From a scan to its files -/

/-- A digest stands between the name and the ending, and leads nowhere. -/
theorem isPlain_withDigest {name digest : String} (h : IsIdentifier name) (hDigest : '/' ∉ digest.toList) :
    Path.IsPlain (Registry.withDigest (Block.fileNameOf name) digest) := by
  have hRest : '/' ∉ ("~" ++ (digest ++ Registry.ending)).toList := by
    simp only [String.toList_append, List.mem_append, not_or]
    exact ⟨by decide, hDigest, by decide⟩
  have hName : Registry.withDigest (Block.fileNameOf name) digest =
      name ++ ("~" ++ (digest ++ Registry.ending)) := by
    rw [Block.fileNameOf, show ".proto" = Registry.ending from rfl, Registry.withDigest_append]
    simp only [String.append_assoc]
  rw [hName]
  exact isPlain_append h hRest

/-- The file of a block has the name of the block, whatever the registry makes of it. -/
theorem isPlain_of_enter {name fileName digest : String} (h : IsIdentifier name) (hDigest : '/' ∉ digest.toList)
    (hFile : fileName = Block.fileNameOf name ∨ fileName = Registry.withDigest (Block.fileNameOf name) digest) :
    Path.IsPlain fileName := by
  rcases hFile with rfl | rfl
  · exact isPlain_append h (by decide)
  · exact isPlain_withDigest h hDigest

/-- In every scan, whatever lines it refused, the names of blocks, nested levels and types are identifiers, and the
    types are of the custom class. So whatever the clear names of a split hold, its files are named by an identifier
    and the ending, its imports and opcode constants are identifiers, and every file of a block is written right in
    the directory for blocks, under a name without slashes, unless a link stands there that leads elsewhere. All that
    the digests of files have to keep to is that they hold no slash. -/
theorem names_are_identifiers :
    (∀ (v : Vocabulary) (lines : List String), ∀ b ∈ (Scan.start.feed v lines).blocks, b.HasIdentifiers v) ∧
    ∀ (s : Splitter) (g : Glossary) (schema : String) (o : SplitResult), (s.run g schema).value = .ok o →
      (∀ judged ∈ o.blocks, judged.block.HasIdentifiers s.vocabulary ∧ ∀ name ∈ judged.imports, IsIdentifier name) ∧
      (∀ file ∈ o.files, ∃ name, IsIdentifier name ∧ file.fileName = name ++ ".proto") ∧
      (∀ entry ∈ (OpcodeTable.ofBlocks o.blocks).entries, IsIdentifier entry.1) ∧
      ∀ (d : Destinations) (n : Plan.Naming), (∀ text, '/' ∉ (n.digest text).toList) → ∀ path contents : String,
        .write path contents (.fileWritten path) ∈ (Plan.deliverAll d n .empty o.documents).2 →
        ∃ name, path = Path.join d.blocks name ∧ Path.IsPlain name ∧
          ∀ (t : Tree) (q : Place), t.locate path = .ok q →
            ∃ p, t.follow true d.blocks (Path.parts d.blocks) = .ok p ∧ t.get? p = some .directory ∧
              (t.link? (p ++ [name]) = none → q = p ++ [name]) := by
  refine ⟨fun v lines b hb => ?_, fun s g schema o hRun => ?_⟩
  · obtain ⟨p, hFits, hReads⟩ := Scan.exists_share_of_mem_feed hb
    exact hasIdentifiers_of_reads hFits hReads
  have hBlocks : ∀ judged ∈ o.blocks, judged.block.HasIdentifiers s.vocabulary :=
    fun judged hJudged => Splitter.hasIdentifiers_of_mem_blocks hRun hJudged
  have hFiles : ∀ file ∈ o.files, ∃ name, IsIdentifier name ∧ file.fileName = Block.fileNameOf name := by
    intro file hFile
    obtain ⟨judged, hJudged, _, rfl⟩ := (Splitter.mem_files_iff hRun).mp hFile
    exact ⟨judged.block.name, (hBlocks judged hJudged).name, rfl⟩
  refine ⟨fun judged hJudged => ?_, hFiles, fun entry hEntry => ?_, fun d n hDigest path contents hWrite => ?_⟩
  · refine ⟨hBlocks judged hJudged, fun name hName => ?_⟩
    exact ((hBlocks judged hJudged).references name hName).1
  · obtain ⟨judged, hJudged, hName⟩ := OpcodeTable.exists_of_mem_entries hEntry
    rw [← hName]
    exact (hBlocks judged hJudged).name
  · obtain ⟨file, name, hDocument, rfl, hName⟩ := Plan.exists_file_of_write hWrite
    have hFile : file ∈ o.files := by simpa [SplitResult.documents] using hDocument
    obtain ⟨stem, hStem, hFileName⟩ := hFiles file hFile
    rw [hFileName] at hName
    have hPlain : Path.IsPlain name := isPlain_of_enter hStem (hDigest _) hName
    exact ⟨name, rfl, hPlain, fun t q hPlace => Tree.exists_follow_of_locate_join hPlain hPlace⟩

/-- A clear name that leads up. -/
def climbingNames : Glossary := ⟨(∅ : Std.ExtTreeMap String String).insert "ABC" "Ping/../../x", ⟨1, 0, 0, 0⟩⟩

theorem clearedLines_climbing : Splitter.default.clearedLines climbingNames Splitter.pingText =
    [⟨"// CmdId: 7", []⟩, ⟨"message Ping/../../x \x7b /*[ABC->Ping/../../x]*/", [("ABC", "Ping/../../x")]⟩,
      ⟨"\x7d", []⟩] := by
  unfold Splitter.clearedLines
  simp only [funext (Clearing.line_eq climbingNames.keyTree Splitter.default.annotate)]
  decide +kernel

/-- The block that is scanned then. -/
def climbingBlock : Block := ⟨"Ping", 7, ["message Ping/../../x \x7b /*[ABC->Ping/../../x]*/", "\x7d"], [], []⟩

/-- A directory with nothing in it. -/
def prepared : Tree := .of [(["out"], .directory)]

/-- The file of a block whose clear name leads up lies in its directory. -/
theorem climbing_file : ∃ (o : SplitResult) (file : BlockFile),
    (Splitter.default.run climbingNames Splitter.pingText).value = .ok o ∧ o.files = [file] ∧
    file.fileName = "Ping.proto" ∧
    .write "out/Ping.proto" file.contents (.fileWritten "out/Ping.proto") ∈
      (Plan.deliverAll ⟨"all", "out", "java"⟩ ⟨.hashSuffix, Digest.short⟩ .empty o.documents).2 ∧
    prepared.locate "out/Ping.proto" = .ok ["out", "Ping.proto"] ∧
    ∃ name, "out/Ping.proto" = Path.join "out" name ∧ Path.IsPlain name ∧
      ∃ p, prepared.follow true "out" (Path.parts "out") = .ok p ∧ ["out", "Ping.proto"] = p ++ [name] := by
  have hParsed : (Schema.ofLines Splitter.default.vocabulary
      ["// CmdId: 7", "message Ping/../../x \x7b /*[ABC->Ping/../../x]*/", "\x7d"]).value =
        .ok ⟨[], [climbingBlock]⟩ := rfl
  obtain ⟨o, hResult⟩ : ∃ o, o = (Splitter.default.layOut
      (Splitter.default.clearedLines climbingNames Splitter.pingText) ⟨[], [climbingBlock]⟩).value := ⟨_, rfl⟩
  have hRun := Splitter.run_eq_ok_iff.mpr ⟨_, by rw [clearedLines_climbing]; exact hParsed, hResult⟩
  rw [Splitter.value_layOut] at hResult
  obtain ⟨file, hFiles, hName⟩ : ∃ file, o.files = [file] ∧ file.fileName = "Ping.proto" := by
    rw [hResult]
    exact ⟨Layout.default.render [] ⟨climbingBlock, .command⟩, by decide +kernel, rfl⟩
  have hDocuments : o.documents = [.combined Document.combinedFileName o.combined, .block file] := by
    have hOpcodes : o.opcodes? = none := by rw [hResult]; rfl
    rw [SplitResult.documents, hFiles, hOpcodes]
    rfl
  have hWrite := Plan.write_first_mem_deliverAll ⟨"all", "out", "java"⟩ ⟨.hashSuffix, Digest.short⟩
    Document.combinedFileName o.combined file []
  rw [← hDocuments, hName] at hWrite
  have hPlace : prepared.locate "out/Ping.proto" = .ok ["out", "Ping.proto"] := rfl
  obtain ⟨_, _, _, hWrites⟩ := names_are_identifiers.2 _ _ _ _ hRun
  obtain ⟨name, hPath, hPlain, hLies⟩ := hWrites _ ⟨.hashSuffix, Digest.short⟩ slash_not_mem_short _ _ hWrite
  obtain ⟨p, hFollow, _, hEnd⟩ := hLies _ _ hPlace
  have hNoLink := (Tree.unlinked_of [(["out"], .directory)] []).linkFree.link?_eq_none (p ++ [name])
  exact ⟨o, file, hRun, hFiles, hName, hWrite, hPlace, name, hPath, hPlain, p, hFollow, hEnd hNoLink⟩

end Unbundle
