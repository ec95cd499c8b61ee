/-
  Unbundle.Proofs.Alteration — a cleared line counts as changed if it is another one than before.

  What is put in may shrink a line, and may even out; a line may also end in what looks like a note. So the texts are
  not compared, but the spaces in them counted. No name of a finished glossary holds a space, so every space of a line
  is copied, whatever else is put in, and the note brings one more.

  - `Pieces.count_space_le`: a line comes out with no fewer spaces than it had.
  - `text_of_unchanged`, `text_of_changed`: a line that does not count as changed stays, and one with a note differs.
  - `space_not_mem_of_mem_finish`: the names of a glossary, whatever rows it was made from.
  - `changed_iff_altered`: lines, and the count of changed lines of a whole split.
-/

import Unbundle.Proofs.Annotation
import Unbundle.Proofs.Glossary.Admission

namespace Unbundle

namespace Clearing

variable {pairs : List (String × String)} {text : String}

/-! ## The spaces of a line -/

/-- A text cut into pieces comes out with no fewer spaces if no key holds one. -/
theorem Pieces.count_space_le {cs : List Char} {pieces : List Segment} (h : Pieces pairs cs pieces)
    (hKeys : ∀ p ∈ pairs, ' ' ∉ p.1.toList) : cs.count ' ' ≤ (pieces.flatMap Segment.output).count ' ' := by
  induction h with
  | nil => exact Nat.le_refl 0
  | @name key value rest pieces _ hGiven _ _ ih =>
    obtain ⟨p, hp, rfl⟩ := mem_pairs_of_lastGiven hGiven
    have hNone : p.1.toList.count ' ' = 0 := List.count_eq_zero.mpr (hKeys p hp)
    rw [List.flatMap_cons, List.count_append, List.count_append]
    omega
  | @copied c rest pieces _ _ ih =>
    rw [List.flatMap_cons, Segment.output, List.singleton_append, List.count_cons, List.count_cons]
    omega

theorem count_space_note (replacements : List (String × String)) : 0 < (note replacements).toList.count ' ' := by
  apply List.count_pos_iff.mpr
  simp [note]

/-! ## Lines with a note and without -/

/-- Pieces of which none is replaced by something else stand for themselves. -/
theorem plain_of_unreplaced {pieces : List Segment} (h : pieces.filterMap Segment.replacement? = []) :
    plain pieces = String.ofList (pieces.flatMap Segment.input) := by
  have hSame : ∀ piece ∈ pieces, piece.output = piece.input := by
    intro piece hPiece
    have hNone := List.filterMap_eq_nil_iff.mp h piece hPiece
    cases piece with
    | copied c => rfl
    | name key value =>
      simp only [Segment.replacement?, ite_eq_left_iff, reduceCtorEq, imp_false, Decidable.not_not] at hNone
      rw [Segment.output, Segment.input, ← hNone, String.toList_ofList]
  rw [plain, List.flatMap_congr hSame]

/-- A line in which nothing was replaced by something else is the line it was. -/
theorem text_of_unchanged {annotate : Bool} (h : (line (KeyTree.ofList pairs) annotate text).changed = false) :
    (line (KeyTree.ofList pairs) annotate text).text = text := by
  have hPieces := pieces_segments pairs text.toList
  have hHas := Progress.has_foldl hPieces.oneValue
  rw [line_eq] at h ⊢
  have hShown : ((segments (KeyTree.ofList pairs) text.toList).foldl Progress.take .start).replacements = [] := by
    simpa [ClearedLine.changed, Progress.finish] using h
  have hNone : (segments (KeyTree.ofList pairs) text.toList).filterMap Segment.replacement? = [] := by
    refine List.eq_nil_iff_forall_not_mem.mpr fun p hp => ?_
    have hMem := (hHas.listed.mem_iff p).mpr hp
    rw [hShown] at hMem
    cases hMem
  rw [Progress.finish, hShown, hHas.text, plain_of_unreplaced hNone, hPieces.flatMap_input, String.ofList_toList]
  simp

/-- A note makes a line another one, for it brings a space that the line did not have. -/
theorem text_of_changed (hKeys : ∀ p ∈ pairs, ' ' ∉ p.1.toList)
    (h : (line (KeyTree.ofList pairs) true text).changed = true) :
    (line (KeyTree.ofList pairs) true text).text ≠ text := by
  have hPieces := pieces_segments pairs text.toList
  have hHas := Progress.has_foldl hPieces.oneValue
  have hSpaces := hPieces.count_space_le hKeys
  intro hSame
  rw [line_eq] at h hSame
  have hShown : ((segments (KeyTree.ofList pairs) text.toList).foldl Progress.take .start).replacements.isEmpty =
      false := by
    simpa [ClearedLine.changed, Progress.finish] using h
  rw [Progress.finish, hShown, hHas.text] at hSame
  have hCount := congrArg (fun line => line.toList.count ' ') hSame
  simp only [Bool.not_false, Bool.and_self, if_true, String.toList_append, List.count_append, plain,
    String.toList_ofList] at hCount
  have := count_space_note ((segments (KeyTree.ofList pairs) text.toList).foldl Progress.take .start).replacements
  omega

end Clearing

/-! ## The names of a glossary -/

namespace Draft

theorem space_not_mem_collapse (key : String) : ' ' ∉ (collapse key).toList := by
  simp [collapse]

/-- A finished glossary has no name with a space in it. -/
theorem space_not_mem_of_mem_finish {d : Draft} {p : String × String} (h : p ∈ d.finish.value.toList) :
    ' ' ∉ p.1.toList := by
  have hHeld : d.finish.value.get? p.1 = some p.2 := Std.ExtTreeMap.mem_toList_iff_getElem?_eq_some.mp h
  obtain ⟨_, hBrought, _⟩ := (get?_finish d p.1 p.2).mp hHeld
  obtain ⟨key, _, _, _, hKey, _⟩ := mem_bringing_iff.mp hBrought
  rw [← hKey]
  exact space_not_mem_collapse key

end Draft

namespace Splitter

/-- The cleared lines of a split, and how many of them count as changed. -/
theorem clearing_eq {s : Splitter} {g : Glossary} {schema : String} {o : SplitResult}
    (hRun : (s.run g schema).value = .ok o) : o.clearedLines = (s.clearedLines g schema).map ClearedLine.text ∧
      o.changedLines = (s.clearedLines g schema).countP ClearedLine.changed := by
  obtain ⟨parsed, _, rfl⟩ := run_eq_ok_iff.mp hRun
  rw [value_layOut]
  exact ⟨rfl, rfl⟩

/-- With the glossary of any draft, a line with a note counts as changed if and only if its text differs, and a line
    without a note that does not count as changed has the text it had. So the changed lines of a split with notes are
    those at whose places the schema and its cleared lines differ. -/
theorem changed_iff_altered (d : Draft) :
    (∀ text, (Clearing.line d.finish.value.keyTree true text).changed = true ↔
      (Clearing.line d.finish.value.keyTree true text).text ≠ text) ∧
    (∀ text, (Clearing.line d.finish.value.keyTree false text).changed = false →
      (Clearing.line d.finish.value.keyTree false text).text = text) ∧
    ∀ (s : Splitter) (schema : String) (o : SplitResult), s.annotate = true →
      (s.run d.finish.value schema).value = .ok o →
        o.clearedLines.length = (Text.lines schema).length ∧
        o.changedLines = ((Text.lines schema).zip o.clearedLines).countP fun p => p.1 ≠ p.2 := by
  have hLine : ∀ text, (Clearing.line d.finish.value.keyTree true text).changed = true ↔
      (Clearing.line d.finish.value.keyTree true text).text ≠ text := by
    intro text
    constructor
    · exact Clearing.text_of_changed fun p hp => Draft.space_not_mem_of_mem_finish hp
    · intro hText
      by_contra hUnchanged
      exact hText (Clearing.text_of_unchanged (Bool.eq_false_iff.mpr hUnchanged))
  refine ⟨hLine, fun text => Clearing.text_of_unchanged, ?_⟩
  intro s schema o hAnnotate hRun
  obtain ⟨hText, hCount⟩ := clearing_eq hRun
  rw [clearedLines, hAnnotate] at hText hCount
  rw [hText, hCount, List.map_map, ← List.map_prod_left_eq_zip, List.countP_map, List.countP_map]
  refine ⟨List.length_map _, List.countP_congr fun text _ => ?_⟩
  rw [Function.comp_apply, hLine, Function.comp_apply, decide_eq_true_eq, ne_comm]
  exact Iff.rfl

/-- A row with a space in its name. -/
def spacedDraft : Draft := Draft.empty.pushRows [(2, ["AB C", "Ping"])]

/-- One line of three is changed, and at one place of three the lines differ. -/
theorem spacedDraft_alters : ∃ o : SplitResult, stamped.annotate = true ∧
    (stamped.run spacedDraft.finish.value pingText).value = .ok o ∧ o.changedLines = 1 ∧
    (Text.lines pingText).zip o.clearedLines = [("// CmdId: 7", "// CmdId: 7"),
      ("message ABC \x7b", "message Ping \x7b /*[ABC->Ping]*/"), ("\x7d", "\x7d")] := by
  have hNames : spacedDraft.finish.value.toList = pingNames.toList := by decide +kernel
  have hTree : spacedDraft.finish.value.keyTree = pingNames.keyTree := congrArg KeyTree.ofList hNames
  have hText : (stamped.clearedLines spacedDraft.finish.value pingText).map ClearedLine.text =
      ["// CmdId: 7", "message Ping \x7b /*[ABC->Ping]*/", "\x7d"] := by
    rw [clearedLines, hTree]
    exact congrArg (List.map ClearedLine.text) (clearedLines_ping true)
  have hParsed : (Schema.ofLines stamped.vocabulary
      ["// CmdId: 7", "message Ping \x7b /*[ABC->Ping]*/", "\x7d"]).value =
        .ok ⟨[], [⟨"Ping", 7, ["message Ping \x7b /*[ABC->Ping]*/", "\x7d"], [], []⟩]⟩ := rfl
  obtain ⟨o, hRun⟩ : ∃ o, (stamped.run spacedDraft.finish.value pingText).value = .ok o :=
    ⟨_, run_eq_ok_iff.mpr ⟨_, hText ▸ hParsed, rfl⟩⟩
  have hPlaces : (Text.lines pingText).zip o.clearedLines = [("// CmdId: 7", "// CmdId: 7"),
      ("message ABC \x7b", "message Ping \x7b /*[ABC->Ping]*/"), ("\x7d", "\x7d")] := by
    rw [(clearing_eq hRun).1, hText]
    decide +kernel
  obtain ⟨_, hCount⟩ := (changed_iff_altered spacedDraft).2.2 stamped pingText o rfl hRun
  rw [hPlaces] at hCount
  exact ⟨o, rfl, hRun, hCount.trans (by decide), hPlaces⟩

end Splitter

end Unbundle
