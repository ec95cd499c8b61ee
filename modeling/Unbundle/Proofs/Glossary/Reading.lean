/-
  Unbundle.Proofs.Glossary.Reading — the rows of a file are those of its lines.

  (1) `byteLines_iff`. Bytes are cut into lines at line feeds, and of a carriage return in front of one nothing is left.

  (2) `readLines_readAs`. Every line behind the first is pushed with its number, and reported if it cannot be used, up
  to the first line that is not UTF-8.

  (3) `tail_lines_written`. Rows that are written line by line, with either line end and with or without one behind the
  last of them, are read back; only a row must not end in a carriage return, since that would be taken for a part of the
  line end.

  (4) `reading_pushes_rows`. All of it about one draft, and a file written from pairs makes the glossary of the pairs.
-/

import Unbundle.Proofs.Glossary.Counts
import Unbundle.Proofs.Glossary.Rows
import Unbundle.Proofs.Text

namespace Unbundle

/-! ## (1) Lines of bytes -/

namespace Text

/-- Bytes and their lines. A line feed ends a line, and a carriage return in front of it belongs to the line end; what
    is left behind the last line feed is a line of its own, unless nothing is left. -/
inductive ByteLines : List UInt8 → List (List UInt8) → Prop
  | none : ByteLines [] []
  | last {line : List UInt8} : line ≠ [] → 10 ∉ line → ByteLines line [line]
  | ended {line rest : List UInt8} {lines : List (List UInt8)} : 10 ∉ line → ByteLines rest lines →
      ByteLines (line ++ 10 :: rest) (withoutBack 13 line :: lines)

theorem cutByteLines_eq_cutFeeds (bytes : List UInt8) : cutByteLines bytes = cutFeeds 10 13 bytes := by
  have hStays : ∀ {b : UInt8} {bytes : List UInt8}, b ≠ 10 → (∀ more, b = 13 → bytes ≠ 10 :: more) →
      cutByteLines bytes = cutFeeds 10 13 bytes → cutByteLines (b :: bytes) = cutFeeds 10 13 (b :: bytes) := by
    intro b bytes hFeed hReturn ih
    have hNext : ¬ (b = 13 ∧ bytes.head? = some 10) := by
      rintro ⟨hb, hHead⟩
      obtain ⟨more, rfl⟩ := List.head?_eq_some_iff.mp hHead
      exact hReturn more hb rfl
    rw [cutByteLines_cons hFeed hReturn, ih, cutFeeds, if_neg hFeed, if_neg hNext]
    cases cutFeeds 10 13 bytes with
    | nil => rfl
    | cons line lines => rfl
  induction bytes using cutByteLines.induct with
  | case1 => rfl
  | case2 bytes ih => exact congrArg ([] :: ·) ih
  | case3 bytes ih => exact congrArg ([] :: ·) ih
  | case4 b bytes hFeed hReturn _ ih => exact hStays hFeed hReturn ih
  | case5 b bytes hFeed hReturn _ _ _ ih => exact hStays hFeed hReturn ih

theorem ByteLines.cutByteLines_eq {bytes : List UInt8} {lines : List (List UInt8)} (h : ByteLines bytes lines) :
    cutByteLines bytes = lines := by
  rw [cutByteLines_eq_cutFeeds]
  induction h with
  | none => rfl
  | last hne hLine => exact cutFeeds_of_not_mem hne hLine
  | ended hLine _ ih => rw [cutFeeds_append hLine, ih]

theorem exists_byteLines (bytes : List UInt8) : ∃ lines, ByteLines bytes lines := by
  by_cases hFeed : 10 ∈ bytes
  · obtain ⟨line, rest, hBytes, hLine⟩ := List.eq_append_cons_of_mem hFeed
    have hShorter : rest.length < bytes.length := by
      rw [hBytes, List.length_append, List.length_cons]
      omega
    obtain ⟨lines, hLines⟩ := exists_byteLines rest
    rw [hBytes]
    exact ⟨_, .ended hLine hLines⟩
  · by_cases hne : bytes = []
    · rw [hne]
      exact ⟨_, .none⟩
    · exact ⟨_, .last hne hFeed⟩
termination_by bytes.length

theorem byteLines_iff {bytes : List UInt8} {lines : List (List UInt8)} :
    ByteLines bytes lines ↔ cutByteLines bytes = lines := by
  constructor
  · exact ByteLines.cutByteLines_eq
  · rintro rfl
    obtain ⟨lines, h⟩ := exists_byteLines bytes
    rwa [h.cutByteLines_eq]

theorem toBytes_eq (text : String) : toBytes text = bytesOf text.toList := by
  have hBytes : text.toList.utf8Encode = text.toUTF8 := by simp
  rw [toBytes, ← hBytes]
  simp [List.utf8Encode, bytesOf]

theorem exists_toBytes_iff {bytes : List UInt8} : (∃ text, toBytes text = bytes) ↔ IsUtf8 bytes := by
  simp only [toBytes_eq, IsUtf8]
  constructor
  · rintro ⟨text, rfl⟩
    exact ⟨_, rfl⟩
  · rintro ⟨cs, rfl⟩
    exact ⟨String.ofList cs, by rw [String.toList_ofList]⟩

theorem ofBytes?_eq_none {bytes : List UInt8} (h : ¬ IsUtf8 bytes) : ofBytes? bytes = none := by
  rwa [← exists_ofBytes?_iff, ← Option.isSome_iff_exists, Option.not_isSome_iff_eq_none] at h

theorem cutByteLines_toBytes (text : String) : cutByteLines (toBytes text) = (lines text).map toBytes := by
  rw [toBytes_eq, cutByteLines_bytesOf, lines, List.map_map]
  refine List.map_congr_left fun cs _ => ?_
  rw [Function.comp_apply, toBytes_eq, String.toList_ofList]

end Text

/-! ## (2) Lines as rows -/

namespace Draft

/-- The rows of lines, the first of which has the given number. -/
def rowsFrom (number : Nat) (texts : List String) : List (Nat × List String) :=
  (texts.zipIdx number).map fun p => (p.2, columns p.1)

/-- The rows of a file with a heading. -/
def rowsBehindHeading (texts : List String) : List (Nat × List String) := rowsFrom 2 texts.tail

/-- What is reported of rows: those that cannot be used, each with its number. -/
def refusals (rows : List (Nat × List String)) : List Event :=
  (rows.filter fun row => ¬ IsUsable row.2).map fun row => .rowIgnored (.malformedRow row.1 (usableColumns row.2))

/-- What is reported of the lines of a file: its heading, and the rows that cannot be used. -/
def reports (texts : List String) : List Event :=
  texts.head?.toList.map .headerRow ++ refusals (rowsBehindHeading texts)

/-- Lines as texts up to the first line that is none, and how the reading ends. -/
inductive ReadAs : List (List UInt8) → List String → Option Failure → Prop
  | none : ReadAs [] [] none
  | text {lines : List (List UInt8)} {texts : List String} {failure? : Option Failure} (text : String) :
      ReadAs lines texts failure? → ReadAs (Text.toBytes text :: lines) (text :: texts) failure?
  | notText {bad : List UInt8} (lines : List (List UInt8)) : ¬ Text.IsUtf8 bad →
      ReadAs (bad :: lines) [] (some (.stream .notText))

theorem exists_readAs (lines : List (List UInt8)) : ∃ texts failure?, ReadAs lines texts failure? := by
  induction lines with
  | nil => exact ⟨[], none, .none⟩
  | cons bytes lines ih =>
    by_cases hBytes : Text.IsUtf8 bytes
    · obtain ⟨text, rfl⟩ := Text.exists_toBytes_iff.mpr hBytes
      obtain ⟨texts, failure?, hLines⟩ := ih
      exact ⟨text :: texts, failure?, .text text hLines⟩
    · exact ⟨[], some (.stream .notText), .notText lines hBytes⟩

theorem readAs_map_toBytes (texts : List String) : ReadAs (texts.map Text.toBytes) texts none := by
  induction texts with
  | nil => exact .none
  | cons text texts ih => exact .text text ih

/-- Whether a row is refused does not depend on the rows before it. -/
theorem push_snd (d : Draft) (number : Nat) (columns : List String) : (d.push number columns).2 =
    if IsUsable columns then none else some (.malformedRow number (usableColumns columns)) := by
  by_cases hUsable : IsUsable columns
  · obtain ⟨key, value, hGives⟩ := id hUsable
    rw [if_pos hUsable, push_of_gives d number hGives]
  · rw [if_neg hUsable, push_of_not_usable d number hUsable]

/-- A row that cannot be used is reported in front of those behind it, and no other is. -/
theorem refusals_cons (d : Draft) (number : Nat) (columns : List String) (rows : List (Nat × List String)) :
    refusals ((number, columns) :: rows) =
      (d.push number columns).2.toList.map .rowIgnored ++ refusals rows := by
  rw [push_snd]
  by_cases hUsable : IsUsable columns
  · simp [refusals, hUsable]
  · simp [refusals, hUsable]

/-- Lines behind the heading are pushed one after the other. -/
theorem readLines_readAs {lines : List (List UInt8)} {texts : List String} {failure? : Option Failure}
    (h : ReadAs lines texts failure?) (d : Draft) {number : Nat} (hNumber : 1 < number) :
    (d.readLines number lines).value = (d.pushRows (rowsFrom number texts), failure?) ∧
      (d.readLines number lines).events = refusals (rowsFrom number texts) := by
  induction h generalizing d number with
  | none => exact ⟨rfl, rfl⟩
  | text text _ ih =>
    have hHeading : number ≠ 1 := by omega
    obtain ⟨hValue, hEvents⟩ := ih (d.push number (columns text)).1 (Nat.lt_succ_of_lt hNumber)
    have hRows : ∀ texts, rowsFrom number (text :: texts) = (number, columns text) :: rowsFrom (number + 1) texts :=
      fun _ => rfl
    rw [d.readLines_cons (Text.ofBytes?_toBytes text) hHeading, hRows, refusals_cons d]
    exact ⟨hValue, congrArg (_ ++ ·) hEvents⟩
  | notText lines hBad =>
    rw [readLines, Text.ofBytes?_eq_none hBad]
    exact ⟨rfl, rfl⟩

/-- Lines are read with the first of them as a heading. -/
theorem readLines_heading {lines : List (List UInt8)} {texts : List String} {failure? : Option Failure}
    (h : ReadAs lines texts failure?) (d : Draft) :
    (d.readLines 1 lines).value = (d.pushRows (rowsBehindHeading texts), failure?) ∧
      (d.readLines 1 lines).events = reports texts := by
  cases h with
  | none => exact ⟨rfl, rfl⟩
  | text heading hLines =>
    obtain ⟨hValue, hEvents⟩ := readLines_readAs hLines d Nat.one_lt_two
    rw [readLines, Text.ofBytes?_toBytes]
    exact ⟨hValue, congrArg (Event.headerRow heading :: ·) hEvents⟩
  | notText lines hBad =>
    rw [readLines, Text.ofBytes?_eq_none hBad]
    exact ⟨rfl, rfl⟩

theorem filter_warn_reports (texts : List String) :
    (reports texts).filter (fun e => e.level = .warn) = refusals (rowsBehindHeading texts) := by
  have hRefusals : ∀ e ∈ refusals (rowsBehindHeading texts), e.level = .warn := by
    intro e he
    obtain ⟨row, _, rfl⟩ := List.mem_map.mp he
    rfl
  rw [reports, List.filter_append, List.filter_eq_self.mpr fun e he => decide_eq_true (hRefusals e he)]
  cases texts <;> rfl

end Draft

/-! ## (3) Rows written line by line -/

namespace Text

/-- What stands behind a line. -/
abbrev IsLineEnd (lineEnd : String) : Prop := lineEnd = "\n" ∨ lineEnd = "\r\n"

/-- A text written line by line. The last line need not be ended. -/
inductive Written : String → List String → Prop
  | none : Written "" []
  | last (line : String) : Written line [line]
  | ended {lineEnd rest : String} {lines : List String} (line : String) : IsLineEnd lineEnd → Written rest lines →
      Written (line ++ lineEnd ++ rest) (line :: lines)

/-- A line feed ends a line, and only a carriage return at the end of the line may be lost. -/
theorem exists_lines_ended {line lineEnd : String} (h : '\n' ∉ line.toList) (hEnd : IsLineEnd lineEnd)
    (rest : String) :
    ∃ read, lines (line ++ lineEnd ++ rest) = read :: lines rest ∧ (IsLine line.toList → read = line) := by
  rcases hEnd with rfl | rfl
  · have hText : (line ++ "\n" ++ rest).toList = line.toList ++ '\n' :: rest.toList := by simp
    refine ⟨readBack line, ?_, readBack_eq⟩
    rw [lines, hText, cutLines_append h]
    rfl
  · have hText : (line ++ "\r\n" ++ rest).toList = (line.toList ++ ['\r']) ++ '\n' :: rest.toList := by simp
    have hFeed : '\n' ∉ line.toList ++ ['\r'] := by simpa using h
    have hReturn : withoutReturn (line.toList ++ ['\r']) = line.toList := by simp [withoutReturn]
    refine ⟨line, ?_, fun _ => rfl⟩
    rw [lines, hText, cutLines_append hFeed, hReturn, List.map_cons, String.ofList_toList]
    rfl

theorem lines_written {text : String} {rows : List String} (h : Written text rows)
    (hRows : ∀ row ∈ rows, row ≠ "" ∧ IsLine row.toList) : lines text = rows := by
  induction h with
  | none => rfl
  | last row =>
    obtain ⟨hne, hRow⟩ := hRows row List.mem_cons_self
    rw [lines, cutLines_of_not_mem (mt String.toList_eq_nil_iff.mp hne) hRow.1, List.map_singleton,
      String.ofList_toList]
  | ended row hEnd _ ih =>
    obtain ⟨⟨_, hRow⟩, hRest⟩ := List.forall_mem_cons.mp hRows
    obtain ⟨read, hText, hRead⟩ := exists_lines_ended hRow.1 hEnd _
    rw [hText, hRead hRow, ih hRest]

/-- Of the heading only its end is looked for: it may be empty, and it may end in a carriage return. -/
theorem tail_lines_written {text heading : String} {rows : List String} (h : Written text (heading :: rows))
    (hHeading : '\n' ∉ heading.toList) (hRows : ∀ row ∈ rows, row ≠ "" ∧ IsLine row.toList) :
    (lines text).tail = rows := by
  cases h with
  | last =>
    by_cases hne : text = ""
    · rw [hne]
      rfl
    · rw [lines, cutLines_of_not_mem (mt String.toList_eq_nil_iff.mp hne) hHeading]
      rfl
  | ended _ hEnd hRest =>
    obtain ⟨read, hText, _⟩ := exists_lines_ended hHeading hEnd _
    rw [hText, List.tail_cons, lines_written hRest hRows]

end Text

/-! ## (4) Files and drafts -/

namespace Draft

/-- The columns of a line are what stands between its tabs. -/
theorem columns_eq_iff {line : String} {parts : List String} : columns line = parts ↔
    parts ≠ [] ∧ (∀ part ∈ parts, '\t' ∉ part.toList) ∧ "\t".intercalate parts = line := by
  have hJoined : Text.IsJoined '\t' (parts.map String.toList) line.toList ↔
      parts ≠ [] ∧ (∀ part ∈ parts, '\t' ∉ part.toList) ∧ "\t".intercalate parts = line := by
    simp [Text.IsJoined, ← String.toList_inj, String.toList_intercalate]
  rw [← hJoined]
  constructor
  · rintro rfl
    have hParts : (columns line).map String.toList = Text.cutAt '\t' line.toList := by
      simp [columns, Function.comp_def]
    rw [hParts]
    exact Text.isJoined_cutAt '\t' line.toList
  · intro h
    simp [columns, h.cutAt_eq, Function.comp_def]

/-- A row with two columns. -/
def rowOf (pair : String × String) : String := pair.1 ++ "\t" ++ pair.2

/-- A pair that a row can be written of. -/
structure IsWritable (pair : String × String) : Prop where
  key : '\t' ∉ pair.1.toList ∧ '\n' ∉ pair.1.toList
  value : '\t' ∉ pair.2.toList ∧ '\n' ∉ pair.2.toList
  noReturn : pair.2.toList.getLast? ≠ some '\r'

theorem IsWritable.columns_rowOf {pair : String × String} (h : IsWritable pair) :
    columns (rowOf pair) = [pair.1, pair.2] := by
  refine columns_eq_iff.mpr ⟨List.cons_ne_nil _ _, ?_, rfl⟩
  simpa using ⟨h.key.1, h.value.1⟩

theorem IsWritable.isLine_rowOf {pair : String × String} (h : IsWritable pair) :
    rowOf pair ≠ "" ∧ Text.IsLine (rowOf pair).toList := by
  have hEnd : ("\t" ++ pair.2).toList = '\t' :: pair.2.toList := by simp
  have hLine : Text.IsLine ("\t" ++ pair.2).toList := by
    rw [hEnd]
    refine ⟨by simpa using h.value.2, fun hReturn => ?_⟩
    rw [List.getLast?_cons] at hReturn
    cases hLast : pair.2.toList.getLast? with
    | none => simp [hLast] at hReturn
    | some c =>
      rw [hLast] at hReturn
      exact h.noReturn (hLast.trans hReturn)
  rw [rowOf, String.append_assoc]
  exact ⟨by simp, Text.isLine_append h.key.2 ⟨by simp, hLine⟩⟩

theorem columns_rowsFrom (number : Nat) (texts : List String) :
    (rowsFrom number texts).map Prod.snd = texts.map columns := calc
  _ = ((texts.zipIdx number).map Prod.fst).map columns := by
    rw [rowsFrom, List.map_map, List.map_map]
    rfl
  _ = texts.map columns := by rw [List.zipIdx_map_fst]

/-- What is written from pairs is read as the pairs are, though their rows have other numbers. -/
theorem readBytes_written {pairs : List (String × String)} {heading text : String} (h : ∀ p ∈ pairs, IsWritable p)
    (hHeading : '\n' ∉ heading.toList) (hText : Text.Written text (heading :: pairs.map rowOf)) :
    (empty.readBytes (Text.toBytes text)).value.2 = none ∧
      (empty.readBytes (Text.toBytes text)).value.1.finish.value = (Glossary.ofPairs pairs).value := by
  have hRows : (Text.lines text).tail = pairs.map rowOf := by
    refine Text.tail_lines_written hText hHeading fun row hRow => ?_
    obtain ⟨p, hp, rfl⟩ := List.mem_map.mp hRow
    exact (h p hp).isLine_rowOf
  have hColumns : (rowsBehindHeading (Text.lines text)).map Prod.snd =
      (((pairs.map fun p => [p.1, p.2]).zipIdx 1).map Prod.swap).map Prod.snd := calc
    _ = (pairs.map rowOf).map columns := by rw [rowsBehindHeading, hRows, columns_rowsFrom]
    _ = pairs.map fun p => [p.1, p.2] := by
      rw [List.map_map]
      exact List.map_congr_left fun p hp => (h p hp).columns_rowOf
    _ = _ := by
      rw [List.map_map]
      exact (List.zipIdx_map_fst 1 _).symm
  have hRead := (readLines_heading (readAs_map_toBytes (Text.lines text)) empty).1
  rw [readBytes, Text.cutByteLines_toBytes, hRead, Glossary.ofPairs, Logged.value_bind, value_pushAll,
    finish_pushRows_of_perm (.of_eq hColumns)]
  exact ⟨rfl, rfl⟩

/-- Reading a file is pushing its rows. Every file is cut into lines, and its lines are texts up to the first that is
    not UTF-8. The rows are the lines behind the heading with their numbers, and their columns stand between tabs; those
    that cannot be used are ignored, each with one warning, and there are no other warnings. A line that is not UTF-8
    ends the reading with a failure, and the rows before it have been pushed. A file that is written from pairs makes
    the glossary of the pairs, with the same counts. -/
theorem reading_pushes_rows :
    (∀ bytes : List UInt8, ∃ lines texts failure?, Text.ByteLines bytes lines ∧ ReadAs lines texts failure?) ∧
    (∀ (d : Draft) (bytes : List UInt8) (lines : List (List UInt8)) (texts : List String) (failure? : Option Failure),
      Text.ByteLines bytes lines → ReadAs lines texts failure? →
        (d.readBytes bytes).value = (d.pushRows (rowsBehindHeading texts), failure?) ∧
        (d.readBytes bytes).events.filter (fun e => e.level = .warn) = refusals (rowsBehindHeading texts)) ∧
    (∀ (d : Draft) (number : Nat) (columns : List String), (d.push number columns).2 =
      if IsUsable columns then none else some (.malformedRow number (usableColumns columns))) ∧
    (∀ (line : String) (parts : List String), columns line = parts ↔
      parts ≠ [] ∧ (∀ part ∈ parts, '\t' ∉ part.toList) ∧ "\t".intercalate parts = line) ∧
    ∀ (pairs : List (String × String)) (heading text : String), (∀ p ∈ pairs, IsWritable p) →
      '\n' ∉ heading.toList → Text.Written text (heading :: pairs.map rowOf) →
        (empty.readBytes (Text.toBytes text)).value.2 = none ∧
        (empty.readBytes (Text.toBytes text)).value.1.finish.value = (Glossary.ofPairs pairs).value := by
  refine ⟨fun bytes => ?_, fun d bytes lines texts failure? hLines hTexts => ?_, push_snd, fun _ _ => columns_eq_iff,
    fun _ _ _ => readBytes_written⟩
  · obtain ⟨lines, hLines⟩ := Text.exists_byteLines bytes
    obtain ⟨texts, failure?, hTexts⟩ := exists_readAs lines
    exact ⟨lines, texts, failure?, hLines, hTexts⟩
  · obtain ⟨hValue, hEvents⟩ := readLines_heading hTexts d
    rw [readBytes, hLines.cutByteLines_eq, hValue, hEvents, filter_warn_reports]
    exact ⟨rfl, rfl⟩

/-- A row that cannot be used, and then a line that is not UTF-8. -/
def spoiledFile : List UInt8 := Text.toBytes "heading\r\nA B\tx\nbroken\n" ++ [0xFF, 10] ++ Text.toBytes "K\ty\n"

/-- The rows in front of the spoiled line, and pairs in a file whose last line is not ended. -/
theorem spoiledFile_read :
    (empty.readBytes spoiledFile).value =
      (empty.pushRows [(2, ["A B", "x"]), (3, ["broken"])], some (.stream .notText)) ∧
    (empty.readBytes spoiledFile).events.filter (fun e => e.level = .warn) = [.rowIgnored (.malformedRow 3 1)] ∧
    (empty.readBytes (Text.toBytes "heading\r\nA B\tx\r\n\ty")).value.1.finish.value =
      (Glossary.ofPairs [("A B", "x"), ("", "y")]).value := by
  obtain ⟨_, hReading, _, _, hWritten⟩ := reading_pushes_rows
  have hLines : Text.ByteLines spoiledFile
      [Text.toBytes "heading", Text.toBytes "A B\tx", Text.toBytes "broken", [0xFF], Text.toBytes "K\ty"] :=
    Text.byteLines_iff.mpr (by decide +kernel)
  have hBad : ¬ Text.IsUtf8 [0xFF] := by
    rw [← Text.exists_ofBytes?_iff, ← Option.isSome_iff_exists]
    decide +kernel
  obtain ⟨hValue, hWarnings⟩ := hReading empty spoiledFile _ _ _ hLines
    (.text "heading" (.text "A B\tx" (.text "broken" (.notText _ hBad))))
  have hText : Text.Written "heading\r\nA B\tx\r\n\ty" ["heading", "A B\tx", "\ty"] :=
    .ended "heading" (.inr rfl) (.ended "A B\tx" (.inr rfl) (.last "\ty"))
  have hPairs : ∀ p ∈ [("A B", "x"), ("", "y")], IsWritable p :=
    List.forall_mem_cons.mpr ⟨⟨by decide, by decide, by decide⟩,
      List.forall_mem_singleton.mpr ⟨by decide, by decide, by decide⟩⟩
  exact ⟨hValue, hWarnings, (hWritten _ "heading" _ hPairs (by decide) hText).2⟩

end Draft

end Unbundle
