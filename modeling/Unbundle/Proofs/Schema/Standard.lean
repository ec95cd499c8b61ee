/-
  Unbundle.Proofs.Schema.Standard — lines in the standard vocabulary, told apart by their first characters.

  Header lines start with `s`, `p` or `i`, nesting lines with `m`, `e` or `o`, and lines that announce a command
  id with a slash. So no line that opens a level is a header line (`Opens.not_isHeader`), and a line that starts
  with anything else means nothing but perhaps a type (`idle_of_head?`).
-/

import Unbundle.Proofs.Schema.Line

namespace Unbundle

/-- The standard vocabulary with the marker that stands unless a user names another. -/
abbrev Vocabulary.protobuf (suppressed : List String) : Vocabulary := .standard suppressed defaultMarker

namespace Line

open Text

variable {suppressed : List String} {marker line name : String}

/-- The first character of a line that is not blank. -/
def head? (line : String) : Option Char := (trim line.toList).head?

theorem head?_of_isPrefix {start : List Char} (hStart : start ≠ []) (h : start <+: trim line.toList) :
    head? line = start.head? := by
  obtain ⟨c, cs, rfl⟩ := List.exists_cons_of_ne_nil hStart
  obtain ⟨rest, hRest⟩ := h
  rw [head?, ← hRest]
  rfl

theorem IsHeader.head?_mem (h : IsHeader (.standard suppressed marker) line) :
    head? line ∈ [some 's', some 'p', some 'i'] := by
  obtain ⟨start, hStart, hPrefix⟩ := h
  have hWords : ∀ word ∈ Vocabulary.headerWords,
      word.toList ≠ [] ∧ word.toList.head? ∈ [some 's', some 'p', some 'i'] := by decide
  rw [head?_of_isPrefix (hWords start hStart).1 hPrefix]
  exact (hWords start hStart).2

theorem Opens.head?_mem (h : Opens (.standard suppressed marker) line name) :
    head? line ∈ [some 'm', some 'e', some 'o'] := by
  obtain ⟨_, word, blanks, rest, hWord, hText, _⟩ := h
  have hWords : ∀ word ∈ Vocabulary.nestingWords,
      word.toList ≠ [] ∧ word.toList.head? ∈ [some 'm', some 'e', some 'o'] := by decide
  have hMem : word ∈ Vocabulary.nestingWords := List.mem_of_find?_eq_some hWord
  rw [head?_of_isPrefix (hWords word hMem).1 (hText ▸ List.prefix_append ..)]
  exact (hWords word hMem).2

theorem Announces.head?_eq (h : Announces (.protobuf suppressed) line) :
    head? line = some '/' := by
  have hMarker : Vocabulary.defaultMarker.toList ++ [' '] ≠ [] := by decide
  rw [head?_of_isPrefix hMarker h]
  decide

theorem Closes.head?_eq (h : Closes line) : head? line = some '\x7d' := by
  rw [head?, h]
  rfl

theorem Opens.not_isHeader (h : Opens (.standard suppressed marker) line name) :
    ¬ IsHeader (.standard suppressed marker) line := by
  intro hHeader
  have hOpens := h.head?_mem
  have hHead := hHeader.head?_mem
  simp only [List.mem_cons, List.not_mem_nil, or_false] at hOpens hHead
  rcases hOpens with e | e | e <;> simp [e] at hHead

theorem neither_of_head? (h : head? line ∉ [some 'm', some 'e', some 'o', some '\x7d']) :
    ¬ ((∃ name, Opens (.standard suppressed marker) line name) ∨ Closes line) := by
  intro hLine
  rcases hLine with ⟨name, hLine⟩ | hLine
  · exact h (List.mem_append_left [some '\x7d'] hLine.head?_mem)
  · exact h (by rw [hLine.head?_eq]; decide)

/-- A line that starts with none of the characters that count. -/
theorem idle_of_head? (h : head? line ∉ [some 'm', some 'e', some 'o', some '\x7d', some '/']) :
    Idle (.protobuf suppressed) line := by
  refine ⟨neither_of_head? fun hLine => h (List.mem_append_left [some '/'] hLine), fun hLine => ?_⟩
  exact h (by rw [hLine.head?_eq]; decide)

theorem trim_comment {text : List Char} (hLine : line.toList = '/' :: '/' :: ' ' :: text) :
    trim line.toList = '/' :: '/' :: trimEnd (' ' :: text) := by
  rw [hLine, trim, trimStart_cons (by decide)]
  exact trimEnd_append_cons (by decide) ['/'] (' ' :: text)

theorem head?_comment {text : List Char} (hLine : line.toList = '/' :: '/' :: ' ' :: text) :
    head? line = some '/' := by
  rw [head?, trim_comment hLine]
  rfl

/-- A comment is no header line, and it means nothing unless it announces a command id. -/
theorem idle_comment {text : List Char} (hLine : line.toList = '/' :: '/' :: ' ' :: text)
    (h : ¬ "CmdId:".toList <+: text) : ¬ IsHeader (.protobuf suppressed) line ∧ Idle (.protobuf suppressed) line := by
  have hTrim := trim_comment hLine
  have hHead := head?_comment hLine
  refine ⟨fun hHeader => ?_, neither_of_head? (by rw [hHead]; decide), fun hAnnounces => h ?_⟩
  · have := hHeader.head?_mem
    rw [hHead] at this
    exact absurd this (by decide)
  · have hMarker : Vocabulary.defaultMarker.toList ++ [' '] = ['/', '/', ' '] ++ ("CmdId:".toList ++ [' ']) := by decide
    unfold Announces at hAnnounces
    rw [hTrim] at hAnnounces
    have hText : Vocabulary.defaultMarker.toList ++ [' '] <+: ['/', '/'] ++ ' ' :: text :=
      hAnnounces.trans ((List.prefix_append_right_inj ['/', '/']).mpr (trimEnd_isPrefix (' ' :: text)))
    rw [hMarker] at hText
    exact (List.prefix_append _ _).trans ((List.prefix_append_right_inj ['/', '/', ' ']).mp hText)

end Line

end Unbundle
