/-
  Unbundle.Proofs.Annotation — the note behind a changed line, and what it does to a split.

  A note is a comment. Where all names are identifiers it holds nothing that a scan looks for, and a line with it is
  of the kind of the line without it (`sameKind_line`). The exception is a line whose text is the bare marker of
  command ids: it announces nothing for lack of a blank, and the note supplies the blank. Where no changed line is
  such a line, splits with notes and without differ in the texts of lines alone (`run_annotated`). Where one is, the
  command id that was announced before it is lost (`not_noteIsInert`).

  The vocabulary is the standard one.
-/

import Mathlib.Data.List.Forall2
import Unbundle.Proofs.Clearing
import Unbundle.Proofs.Schema.Outline
import Unbundle.Proofs.Splitter

namespace Unbundle

open Line Text

/-! ## The note behind a line -/

namespace Clearing

theorem mem_intercalate {c : Char} {separator : List Char} {parts : List (List Char)}
    (h : c ∈ separator.intercalate parts) : c ∈ separator ∨ ∃ part ∈ parts, c ∈ part := by
  induction parts with
  | nil => cases h
  | cons part parts ih =>
    rcases parts with _ | ⟨next, parts⟩
    · exact .inr ⟨part, List.mem_cons_self, by simpa using h⟩
    · rw [List.intercalate_cons_cons] at h
      rcases List.mem_append.mp h with h | h
      · rcases List.mem_append.mp h with h | h
        · exact .inr ⟨part, List.mem_cons_self, h⟩
        · exact .inl h
      · rcases ih h with h | ⟨other, hMem, h⟩
        · exact .inl h
        · exact .inr ⟨other, List.mem_cons_of_mem part hMem, h⟩

/-- A note with a separator of one's own between the replacements. -/
def noteWith (separator : String) (replacements : List (String × String)) : String :=
  " /*[" ++ separator.intercalate (replacements.map fun p => p.1 ++ "->" ++ p.2) ++ "]*/"

theorem isRemark_noteWith {separator : String} {replacements : List (String × String)}
    (hSeparator : '<' ∉ separator.toList) (h : ∀ p ∈ replacements, IsIdentifier p.1 ∧ IsIdentifier p.2) :
    IsRemark (noteWith separator replacements).toList := by
  have hNames : '<' ∉ (separator.intercalate (replacements.map fun p => p.1 ++ "->" ++ p.2)).toList := by
    intro hMem
    rw [String.toList_intercalate, List.map_map] at hMem
    rcases mem_intercalate hMem with hMem | ⟨part, hPart, hMem⟩
    · exact hSeparator hMem
    · obtain ⟨p, hp, rfl⟩ := List.mem_map.mp hPart
      obtain ⟨hKey, hValue⟩ := h p hp
      simp only [Function.comp_apply, String.toList_append, List.mem_append] at hMem
      rcases hMem with (hMem | hMem) | hMem
      · exact absurd (hKey.2 _ hMem) (by decide)
      · exact absurd hMem (by decide)
      · exact absurd (hValue.2 _ hMem) (by decide)
  unfold noteWith
  generalize separator.intercalate (replacements.map fun p => p.1 ++ "->" ++ p.2) = names at hNames ⊢
  refine ⟨[' '], '[' :: (names.toList ++ [']']), ?_, List.forall_mem_singleton.mpr (by decide), ?_⟩
  · simp
  · simp [hNames]

/-- A note about identifiers is a remark. -/
theorem isRemark_note {replacements : List (String × String)}
    (h : ∀ p ∈ replacements, IsIdentifier p.1 ∧ IsIdentifier p.2) : IsRemark (note replacements).toList :=
  isRemark_noteWith (by decide : '<' ∉ ", ".toList) h

/-- A line in which identifiers were put is of one kind with a note about them and without, unless it is a bare marker.
    It is no closing brace, for it holds an identifier. -/
theorem sameKind_note (suppressed : List String) {cleared : ClearedLine} (hChanged : cleared.changed = true)
    (hNames : ∀ p ∈ cleared.replacements, IsIdentifier p.1 ∧ IsIdentifier p.2)
    (hText : ∀ p ∈ cleared.replacements, ∀ c ∈ p.2.toList, c ∈ cleared.text.toList)
    (hMarker : trim cleared.text.toList ≠ Vocabulary.defaultMarker.toList) :
    SameKind (.protobuf suppressed) (cleared.text ++ note cleared.replacements) cleared.text := by
  obtain ⟨p, hp⟩ : ∃ p, p ∈ cleared.replacements := by
    apply List.exists_mem_of_ne_nil
    simpa [ClearedLine.changed] using hChanged
  obtain ⟨hNonempty, hChars⟩ := (hNames p hp).2
  obtain ⟨c, hc⟩ := List.exists_mem_of_ne_nil _ hNonempty
  have hCloses : ¬ Closes cleared.text := by
    intro hBrace
    have hMem := mem_trim_of_mem (hText p hp c hc) (isBlank_of_isIdentifierChar (hChars c hc))
    rw [hBrace, List.mem_singleton] at hMem
    exact absurd (hMem ▸ hChars c hc) (by decide)
  obtain ⟨e, he, hTrim⟩ := (isRemark_note hNames).exists_trim_append cleared.text.toList
  apply LineKind.kind_append_remark he
  · rw [String.toList_append, hTrim]
  · exact hMarker
  · exact hCloses

/-- The note apart, a line comes out as it does without one. -/
theorem line_true (t : KeyTree) (text : String) : line t true text =
    { line t false text with
      text := if (line t false text).changed then (line t false text).text ++ note (line t false text).replacements
        else (line t false text).text } := by
  rw [line_eq, line_eq]
  unfold Progress.finish
  simp [ClearedLine.changed]

variable {pairs : List (String × String)} {text : String}

/-- What was replaced stands in the list of pairs, and what came in its place in the line. -/
theorem mem_of_mem_replacements {p : String × String}
    (h : p ∈ (line (KeyTree.ofList pairs) false text).replacements) :
    p ∈ pairs ∧ ∀ c ∈ p.2.toList, c ∈ (line (KeyTree.ofList pairs) false text).text.toList := by
  have hPieces := pieces_segments pairs text.toList
  have hHas := Progress.has_foldl hPieces.oneValue
  rw [line_eq] at h ⊢
  obtain ⟨piece, hPiece, hReplaced⟩ := List.mem_filterMap.mp ((hHas.listed.mem_iff p).mp h)
  cases piece with
  | copied c => cases hReplaced
  | name key value =>
    simp only [Segment.replacement?] at hReplaced
    split at hReplaced
    · cases hReplaced
    · obtain rfl := Option.some.inj hReplaced
      obtain ⟨_, before, q, after, hPairs, rfl, rfl, _⟩ := hPieces.lastGiven hPiece
      constructor
      · rw [hPairs, String.ofList_toList]
        exact List.mem_append_right before List.mem_cons_self
      · intro c hc
        show c ∈ (List.foldl _ _ _ : Progress).text.toList
        rw [hHas.text, plain, String.toList_ofList]
        exact List.mem_flatMap.mpr ⟨_, hPiece, hc⟩

/-- With a note and without, a cleared line is of one kind. -/
theorem sameKind_line (suppressed : List String) (hNames : ∀ p ∈ pairs, IsIdentifier p.1 ∧ IsIdentifier p.2)
    (hMarker : (line (KeyTree.ofList pairs) false text).changed = true →
      trim (line (KeyTree.ofList pairs) false text).text.toList ≠ Vocabulary.defaultMarker.toList) :
    SameKind (.protobuf suppressed) (line (KeyTree.ofList pairs) true text).text
      (line (KeyTree.ofList pairs) false text).text := by
  rw [line_true]
  split
  · rename_i hChanged
    exact sameKind_note suppressed hChanged (fun p hp => hNames p (mem_of_mem_replacements hp).1)
      (fun p hp => (mem_of_mem_replacements hp).2) (hMarker hChanged)
  · exact fun _ => rfl

end Clearing

/-! ## Results that differ in the texts of lines -/

/-- The same verdict on blocks that differ in the texts of their lines alone. -/
structure JudgedBlock.Alike (b b' : JudgedBlock) : Prop where
  name : b.block.name = b'.block.name
  commandId : b.block.commandId = b'.block.commandId
  imports : b.imports = b'.imports
  nested : b.block.nested = b'.block.nested
  eligibility : b.eligibility = b'.eligibility
  bodyLength : b.block.body.length = b'.block.body.length

/-- The same files of the same blocks, with as many lines changed and as many header lines, but for the texts of
    lines. -/
structure SplitResult.Alike (o o' : SplitResult) : Prop where
  changedLines : o.changedLines = o'.changedLines
  headerLength : o.header.length = o'.header.length
  blocks : List.Forall₂ JudgedBlock.Alike o.blocks o'.blocks
  fileNames : o.files.map BlockFile.fileName = o'.files.map BlockFile.fileName
  opcodes : o.opcodes? = o'.opcodes?

theorem JudgedBlock.alike_of_outline_eq {b b' : JudgedBlock} (h : b.outline = b'.outline) : b.Alike b' := by
  obtain ⟨hBlock, hEligibility⟩ := JudgedBlock.mk.inj h
  obtain ⟨hName, hId, hBody, hReferences, hNested⟩ := Block.mk.inj hBlock
  refine ⟨hName, hId, hReferences, hNested, hEligibility, ?_⟩
  simpa using congrArg List.length hBody

theorem exists_of_map_eq_map {ε α β : Type} {f : α → β} {x y : Except ε α} (h : x.map f = y.map f) :
    (∃ e, x = .error e ∧ y = .error e) ∨ ∃ a b, x = .ok a ∧ y = .ok b ∧ f a = f b := by
  cases x with
  | error e =>
    cases y with
    | error e' => exact .inl ⟨e, rfl, congrArg Except.error (Except.error.inj h).symm⟩
    | ok b => cases h
  | ok a =>
    cases y with
    | error e => cases h
    | ok b => exact .inr ⟨a, b, rfl, rfl, Except.ok.inj h⟩

namespace Splitter

/-- With notes and without, a split of this schema fails alike or gives results that differ in the texts of lines
    alone. -/
def NoteIsInert (s : Splitter) (g : Glossary) (schema : String) : Prop :=
  (∃ failure, (Splitter.run { s with annotate := true } g schema).value = .error failure ∧
    (Splitter.run { s with annotate := false } g schema).value = .error failure) ∨
  ∃ o o', (Splitter.run { s with annotate := true } g schema).value = .ok o ∧
    (Splitter.run { s with annotate := false } g schema).value = .ok o' ∧ o.Alike o'

theorem fileNames_outline (l : Layout) (header : List String) (blocks : List JudgedBlock) :
    ((blocks.filter JudgedBlock.isEmitted).map (l.render header)).map BlockFile.fileName =
      ((blocks.map JudgedBlock.outline).filter JudgedBlock.isEmitted).map fun b => b.block.fileName := by
  rw [List.filter_map, List.map_map, List.map_map]
  rfl

/-- What is laid out of schemas of one outline. -/
theorem alike_layOut (s : Splitter) {cleared cleared' : List ClearedLine} {parsed parsed' : Schema}
    (hChanged : cleared.countP ClearedLine.changed = cleared'.countP ClearedLine.changed)
    (h : parsed.outline = parsed'.outline) :
    (s.layOut cleared parsed).value.Alike (s.layOut cleared' parsed').value := by
  have hHeader : parsed.header.length = parsed'.header.length := by
    simpa [Schema.outline] using congrArg (fun schema : Schema => schema.header.length) h
  have hBlocks : (s.selection.resolve parsed.blocks).value.map JudgedBlock.outline =
      (s.selection.resolve parsed'.blocks).value.map JudgedBlock.outline := by
    rw [← Selection.outline_resolve, ← Selection.outline_resolve]
    exact congrArg (fun blocks => (s.selection.resolve blocks).value) (congrArg Schema.blocks h)
  rw [value_layOut, value_layOut]
  refine ⟨hChanged, ?_, ?_, ?_, ?_⟩
  · simp [hHeader]
  · refine List.Forall₂.imp (fun _ _ => JudgedBlock.alike_of_outline_eq) ?_
    apply List.forall₂_map_right_iff.mp
    apply List.forall₂_map_left_iff.mp
    rw [hBlocks, List.forall₂_eq_eq_eq]
  · rw [fileNames_outline, fileNames_outline, hBlocks]
  · rw [← OpcodeTable.ofBlocks_outline, hBlocks, OpcodeTable.ofBlocks_outline]

theorem countP_changed_annotated (s : Splitter) (g : Glossary) (schema : String) :
    (Splitter.clearedLines { s with annotate := true } g schema).countP ClearedLine.changed =
      (Splitter.clearedLines { s with annotate := false } g schema).countP ClearedLine.changed := by
  unfold clearedLines
  rw [List.countP_map, List.countP_map]
  apply List.countP_congr
  intro text _
  simp only [Function.comp_apply, Clearing.line_true]
  exact Iff.rfl

/-- Notes leave a split as it is where all names are identifiers and no changed line is a bare marker. -/
theorem run_annotated {s : Splitter} {g : Glossary} {schema : String} (hStandard : s.IsStandard)
    (hNames : ∀ p ∈ g.toList, IsIdentifier p.1 ∧ IsIdentifier p.2)
    (hMarker : ∀ line ∈ Splitter.clearedLines { s with annotate := false } g schema, line.changed = true →
      trim line.text.toList ≠ Vocabulary.defaultMarker.toList) : s.NoteIsInert g schema := by
  obtain ⟨suppressed, hVocabulary⟩ := hStandard
  have hKinds : List.Forall₂ (SameKind s.vocabulary)
      ((Splitter.clearedLines { s with annotate := true } g schema).map ClearedLine.text)
      ((Splitter.clearedLines { s with annotate := false } g schema).map ClearedLine.text) := by
    unfold clearedLines at hMarker ⊢
    rw [List.map_map, List.map_map, List.forall₂_map_left_iff, List.forall₂_map_right_iff, List.forall₂_same]
    intro text hText
    rw [hVocabulary]
    exact Clearing.sameKind_line suppressed hNames (hMarker _ (List.mem_map_of_mem hText))
  have hOutline := Schema.outline_ofLines hKinds
  rcases exists_of_map_eq_map hOutline with ⟨failure, hOn, hOff⟩ | ⟨parsed, parsed', hOn, hOff, hParsed⟩
  · exact .inl ⟨failure, run_eq_error_iff.mpr hOn, run_eq_error_iff.mpr hOff⟩
  · exact .inr ⟨_, _, run_eq_ok_iff.mpr ⟨parsed, hOn, rfl⟩, run_eq_ok_iff.mpr ⟨parsed', hOff, rfl⟩,
      alike_layOut s (countP_changed_annotated s g schema) hParsed⟩

/-- A note behind an opening line. -/
theorem ping_noteIsInert : stamped.IsStandard ∧ (∀ p ∈ pingNames.toList, IsIdentifier p.1 ∧ IsIdentifier p.2) ∧
    stamped.NoteIsInert pingNames pingText := by
  have hStandard : stamped.IsStandard := ⟨Vocabulary.defaultSuppressed, rfl⟩
  have hList : pingNames.toList = [("ABC", "Ping")] := by decide +kernel
  have hNames : ∀ p ∈ pingNames.toList, IsIdentifier p.1 ∧ IsIdentifier p.2 := by
    rw [hList]
    refine List.forall_mem_singleton.mpr ⟨⟨by decide, ?_⟩, ⟨by decide, ?_⟩⟩
    · exact List.all_eq_true.mp (by decide)
    · exact List.all_eq_true.mp (by decide)
  refine ⟨hStandard, hNames, run_annotated hStandard hNames ?_⟩
  rw [clearedLines_ping]
  decide

/-- The clear name of `Foo` makes a marker out of a comment. -/
def markerNames : Glossary := ⟨(∅ : Std.ExtTreeMap String String).insert "Foo" "CmdId", ⟨1, 0, 0, 0⟩⟩

/-- A command id, a comment that becomes a bare marker, and the block that the id is meant for. -/
def markerSchema : String := "// CmdId: 5\n// Foo:\nmessage Ping \x7b\n\x7d\n"

theorem clearedLines_marker (annotate : Bool) :
    Splitter.clearedLines { default with annotate } markerNames markerSchema =
      [⟨"// CmdId: 5", []⟩, ⟨"// CmdId:" ++ if annotate then " /*[Foo->CmdId]*/" else "", [("Foo", "CmdId")]⟩,
        ⟨"message Ping \x7b", []⟩, ⟨"\x7d", []⟩] := by
  unfold clearedLines
  simp only [funext (Clearing.line_eq markerNames.keyTree annotate)]
  cases annotate
  · decide +kernel
  · decide +kernel

/-- A note behind a bare marker makes an announcement of it, and the block loses its command id. -/
theorem not_noteIsInert : ¬ ∀ (s : Splitter) (g : Glossary) (schema : String), s.IsStandard →
    (∀ p ∈ g.toList, IsIdentifier p.1 ∧ IsIdentifier p.2) → s.NoteIsInert g schema := by
  intro h
  have hList : markerNames.toList = [("Foo", "CmdId")] := by decide +kernel
  have hNames : ∀ p ∈ markerNames.toList, IsIdentifier p.1 ∧ IsIdentifier p.2 := by
    rw [hList]
    refine List.forall_mem_singleton.mpr ⟨⟨by decide, ?_⟩, ⟨by decide, ?_⟩⟩
    · exact List.all_eq_true.mp (by decide)
    · exact List.all_eq_true.mp (by decide)
  have hInert := h default markerNames markerSchema isStandard_default hNames
  rcases hInert with ⟨failure, hOn, _⟩ | ⟨o, o', hOn, hOff, hAlike⟩
  · rw [run_eq_error_iff, clearedLines_marker] at hOn
    cases hOn
  · obtain ⟨parsed, hParsed, rfl⟩ := run_eq_ok_iff.mp hOn
    obtain ⟨parsed', hParsed', rfl⟩ := run_eq_ok_iff.mp hOff
    have hBlocks := hAlike.blocks
    rw [value_layOut, value_layOut] at hBlocks
    rw [clearedLines_marker] at hParsed hParsed'
    cases hParsed
    cases hParsed'
    change List.Forall₂ JudgedBlock.Alike [⟨⟨"Ping", 0, _, _, _⟩, _⟩] [⟨⟨"Ping", 5, _, _, _⟩, _⟩] at hBlocks
    cases hBlocks with
    | cons hPing _ => exact absurd hPing.commandId (by decide)

end Splitter

end Unbundle
