/-
  Unbundle.Proofs.Noted — one line with a note behind it, and without.

  A step looks at the kind of a line, and keeps its text in one place: in the header, at the end of the block opened
  last, or nowhere. A note leaves the merged kind of a line, so it changes nothing of the scan but the text kept.

  - `exists_step_eq_withText`: where a step puts the text of a line does not depend on the text.
  - `note_behind_line`: a line with a note and without, in whatever state of the scan it comes.

  The vocabulary is the standard one.
-/

import Unbundle.Proofs.Annotation

namespace Unbundle

open Line Text

/-- Where a scan keeps the text of a line. -/
inductive Spot where
  | nowhere
  | header
  /-- At the end of the block opened last. -/
  | body
  deriving DecidableEq, Repr

namespace Scan

/-- The scan with a text put where it is kept. -/
def withText (s : Scan) : Spot → String → Scan
  | .nowhere, _ => s
  | .header, text => { s with header := s.header ++ [text] }
  | .body, text => s.change fun b => { b with body := b.body ++ [text] }

/-- A nesting word without a name does what a line does that names no type. -/
theorem value_step_merged (s : Scan) (kind : LineKind) (line : String) :
    (s.step kind.merged line).value = (s.step kind line).value := by
  cases kind <;> rfl

/-- All lines of one kind leave the same scan, each with its own text in the same place. Only closings are refused. -/
theorem exists_step_eq_withText (s : Scan) (kind : LineKind) : ∃ (t : Scan) (spot : Spot) (failure? : Option Failure),
    (kind ≠ .closing → failure? = none) ∧ ∀ line, (s.step kind line).value = (t.withText spot line, failure?) := by
  let s' : Scan := { s with lineNumber := s.lineNumber + 1 }
  cases kind with
  | header => exact ⟨s', .header, none, fun _ => rfl, fun _ => rfl⟩
  | commandId id => exact ⟨{ s' with pending := id }, .nowhere, none, fun _ => rfl, fun _ => rfl⟩
  | opener name =>
    by_cases hNested : s.current?.isSome ∧ 0 < s.depth
    · refine ⟨{ s'.change (·.nest name) with depth := s.depth + 1 }, .body, none, fun _ => rfl, fun line => ?_⟩
      simp [s', value_step, hNested, openNested, withText, change, Block.append, Function.comp_def]
    · refine ⟨{ s'.openBlock name "" with current? := some ⟨name, s.pending, [], [], []⟩ }, .body, none, fun _ => rfl,
        fun line => ?_⟩
      simp [s', value_step, hNested, openBlock, withText, change, Block.opened]
  | nameless =>
    refine ⟨s', .body, none, fun _ => rfl, fun line => ?_⟩
    simp [s', value_step, withText, change, Block.append]
  | closing =>
    by_cases hDepth : s.depth = 0
    · refine ⟨s', .nowhere, some (.unbalanced s'.lineNumber), fun h => absurd rfl h, fun line => ?_⟩
      simp [s', value_step, hDepth, withText]
    · refine ⟨{ s' with depth := s.depth - 1 }, .body, none, fun _ => rfl, fun line => ?_⟩
      simp [s', value_step, hDepth, withText, change, Block.append]
  | plain reference? =>
    refine ⟨s'.change fun b => { b with references := b.references ++ reference?.toList }, .body, none, fun _ => rfl,
      fun line => ?_⟩
    simp [s', value_step, withText, change, Block.append, Function.comp_def]

/-- A line is accepted with a note about identifiers and without, and the scans after it are one scan with the one or
    the other text in the same place. Closing braces and bare markers are left out: with a note they are something
    else. -/
theorem note_behind_line (suppressed : List String) (s : Scan) {line separator : String}
    {pairs : List (String × String)} (hMarker : trim line.toList ≠ Vocabulary.defaultMarker.toList)
    (hCloses : ¬ Closes line)
    (hSeparator : ∃ blanks, separator.toList = ',' :: blanks ∧ ∀ c ∈ blanks, isBlank c = true)
    (hNames : ∀ p ∈ pairs, IsIdentifier p.1 ∧ IsIdentifier p.2) :
    ∃ (t : Scan) (spot : Spot), (s.push (.protobuf suppressed) line).value = (t.withText spot line, none) ∧
      (s.push (.protobuf suppressed) (line ++ Clearing.noteWith separator pairs)).value =
        (t.withText spot (line ++ Clearing.noteWith separator pairs), none) := by
  have hMark : '<' ∉ separator.toList := by
    obtain ⟨blanks, hText, hBlanks⟩ := hSeparator
    rw [hText, List.mem_cons, not_or]
    exact ⟨by decide, fun hMem => absurd (hBlanks _ hMem) (by decide)⟩
  obtain ⟨e, he, hTrim⟩ := (Clearing.isRemark_noteWith hMark hNames).exists_trim_append line.toList
  rw [← String.toList_append] at hTrim
  have hKind := @LineKind.kind_append_remark e he suppressed line _ hTrim hMarker hCloses s.current?.isSome
  obtain ⟨t, spot, failure?, hKept, hStep⟩ :=
    s.exists_step_eq_withText (.of (.protobuf suppressed) s.current?.isSome line)
  obtain rfl : failure? = none := hKept fun hClosing => hCloses (LineKind.of_eq_closing_iff_behind.mp hClosing).1
  refine ⟨t, spot, hStep line, ?_⟩
  rw [push, ← value_step_merged, hKind, value_step_merged]
  exact hStep _

/-- A bare nesting word inside a block lacks a blank and a name, and the note brings the blank. -/
theorem oneof_noted : trim "oneof".toList ≠ Vocabulary.defaultMarker.toList ∧ ¬ Closes "oneof" ∧
    IsIdentifier "AB" ∧ IsIdentifier "Ping" ∧ ∃ (t : Scan) (spot : Spot),
      ((start.next (.protobuf []) "message Ping \x7b").push (.protobuf []) "oneof").value =
        (t.withText spot "oneof", none) ∧
      ((start.next (.protobuf []) "message Ping \x7b").push (.protobuf []) "oneof /*[AB->Ping,AB->Ping]*/").value =
        (t.withText spot "oneof /*[AB->Ping,AB->Ping]*/", none) := by
  have hKey : IsIdentifier "AB" := ⟨by decide, List.all_eq_true.mp (by decide)⟩
  have hValue : IsIdentifier "Ping" := ⟨by decide, List.all_eq_true.mp (by decide)⟩
  have hNames : ∀ p ∈ [("AB", "Ping"), ("AB", "Ping")], IsIdentifier p.1 ∧ IsIdentifier p.2 := by
    simp [hKey, hValue]
  have hSeparator : ∃ blanks, ",".toList = ',' :: blanks ∧ ∀ c ∈ blanks, isBlank c = true :=
    ⟨[], rfl, List.forall_mem_nil _⟩
  have hNote : "oneof" ++ Clearing.noteWith "," [("AB", "Ping"), ("AB", "Ping")] =
      "oneof /*[AB->Ping,AB->Ping]*/" := by decide +kernel
  have hMarker : trim "oneof".toList ≠ Vocabulary.defaultMarker.toList := by decide
  have hCloses : ¬ Closes "oneof" := by decide
  have hLines := note_behind_line [] (start.next (.protobuf []) "message Ping \x7b") hMarker hCloses hSeparator hNames
  rw [hNote] at hLines
  exact ⟨hMarker, hCloses, hKey, hValue, hLines⟩

end Scan

end Unbundle
