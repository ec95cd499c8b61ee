/-
  Unbundle.Proofs.Schema.Line — which lines are of which kind, said of their text alone.

  Every predicate is about the trimmed text of a line. `of_eq_header_iff`, `of_eq_commandId_iff`,
  `of_eq_opener_iff` and `of_eq_closing_iff` tie the kinds to the predicates; where no header line is possible,
  in a block, the kind does not depend on what stood before.
-/

import Unbundle.Proofs.Text
import Unbundle.Schema.Line

namespace Unbundle

namespace Line

open Text

/-- The line starts as header lines do. -/
def IsHeader (v : Vocabulary) (line : String) : Prop := ∃ start ∈ v.headers, start.toList <+: trim line.toList

/-- The line announces a command id: it starts with the marker and a space. -/
def Announces (v : Vocabulary) (line : String) : Prop := v.marker.toList ++ [' '] <+: trim line.toList

/-- The first nesting word of the list that the line starts with, a space behind it. -/
def nestingWord? (v : Vocabulary) (line : String) : Option String :=
  v.nesting.find? fun word => (word.toList ++ [' ']).isPrefixOf (trim line.toList)

/-- The line announces nothing, and blanks and an identifier follow its nesting word. -/
def Opens (v : Vocabulary) (line name : String) : Prop :=
  ¬ Announces v line ∧ ∃ word blanks rest, nestingWord? v line = some word ∧
    trim line.toList = word.toList ++ (blanks ++ (name.toList ++ rest)) ∧
    blanks ≠ [] ∧ (∀ c ∈ blanks, isBlank c = true) ∧ IsIdentifier name ∧
    ∀ c, rest.head? = some c → isIdentifierChar c = false

/-- The line is a closing brace. -/
def Closes (line : String) : Prop := trim line.toList = ['}']

/-- The line opens nothing, closes nothing and announces nothing. -/
def Idle (v : Vocabulary) (line : String) : Prop :=
  ¬ ((∃ name, Opens v line name) ∨ Closes line) ∧ ¬ Announces v line

instance (v : Vocabulary) (line : String) : Decidable (IsHeader v line) :=
  inferInstanceAs (Decidable (∃ start ∈ v.headers, start.toList <+: trim line.toList))

instance (v : Vocabulary) (line : String) : Decidable (Announces v line) :=
  inferInstanceAs (Decidable (_ <+: _))

instance (line : String) : Decidable (Closes line) := inferInstanceAs (Decidable (_ = _))

theorem Closes.not_announces {v : Vocabulary} {line : String} (h : Closes line) : ¬ Announces v line := by
  intro ha
  unfold Announces at ha
  rw [h] at ha
  have hl := ha.length_le
  cases hm : v.marker.toList with
  | nil => simp [hm] at ha
  | cons c cs => simp [hm] at hl

end Line

namespace LineKind

open Text Line

/-! ## Starts of texts -/

theorem after?_eq_some_iff {start cs rest : List Char} : after? start cs = some rest ↔ cs = start ++ rest := by
  induction start generalizing cs with
  | nil => simp [after?, eq_comm]
  | cons s start ih =>
    cases cs with
    | nil => simp [after?]
    | cons c cs =>
      by_cases h : s = c
      · simp [after?, h, ih]
      · simp [after?, h, Ne.symm h]

theorem afterSpaced?_eq_some_iff {start cs rest : List Char} :
    afterSpaced? start cs = some rest ↔ cs = start ++ rest ∧ rest.head? = some ' ' := by
  unfold afterSpaced?
  constructor
  · intro h
    split at h
    · rename_i r hr
      cases h
      exact ⟨after?_eq_some_iff.mp hr, rfl⟩
    · cases h
  · intro ⟨hcs, hs⟩
    obtain ⟨r, rfl⟩ : ∃ r, rest = ' ' :: r := by
      cases rest with
      | nil => cases hs
      | cons c r => cases hs; exact ⟨r, rfl⟩
    rw [after?_eq_some_iff.mpr hcs]
    rfl

theorem afterSpaced?_isSome_iff {start cs : List Char} : (afterSpaced? start cs).isSome ↔ start ++ [' '] <+: cs := by
  rw [Option.isSome_iff_exists]
  constructor
  · intro ⟨rest, h⟩
    obtain ⟨rfl, hs⟩ := afterSpaced?_eq_some_iff.mp h
    cases rest with
    | nil => cases hs
    | cons c rest => cases hs; exact ⟨rest, by simp⟩
  · rintro ⟨rest, rfl⟩
    exact ⟨' ' :: rest, afterSpaced?_eq_some_iff.mpr ⟨by simp, rfl⟩⟩

/-! ## The kinds -/

variable {v : Vocabulary} {line : String}

theorem commandId?_isSome_iff : (commandId? v.marker (trim line.toList)).isSome ↔ Announces v line := by
  rw [commandId?, Option.isSome_map, afterSpaced?_isSome_iff, Announces]

theorem afterNestingWord?_eq (v : Vocabulary) (line : String) :
    afterNestingWord? v.nesting (trim line.toList) =
      (nestingWord? v line).bind fun word => afterSpaced? word.toList (trim line.toList) := by
  unfold afterNestingWord? nestingWord?
  induction v.nesting with
  | nil => rfl
  | cons word words ih =>
    have hp : (word.toList ++ [' ']).isPrefixOf (trim line.toList) =
        (afterSpaced? word.toList (trim line.toList)).isSome := by
      rw [Bool.eq_iff_iff, List.isPrefixOf_iff_prefix, afterSpaced?_isSome_iff]
    rw [List.findSome?_cons, List.find?_cons, hp]
    cases ha : afterSpaced? word.toList (trim line.toList) with
    | none => exact ih
    | some rest => exact ha.symm

theorem of_eq_header_iff {inBlock : Bool} : of v inBlock line = .header ↔ inBlock = false ∧ IsHeader v line := by
  have hany : v.headers.any (fun start => start.toList.isPrefixOf (trim line.toList)) = true ↔ IsHeader v line := by
    simp [IsHeader, List.any_eq_true, List.isPrefixOf_iff_prefix]
  unfold of
  simp only
  split
  · rename_i h
    rw [Bool.and_eq_true, Bool.not_eq_true', hany] at h
    exact iff_of_true rfl h
  · rename_i h
    rw [Bool.and_eq_true, Bool.not_eq_true', hany] at h
    refine iff_of_false (fun h' => ?_) h
    repeat' split at h'
    all_goals cases h'

/-- Blanks at the ends of a line do not count. -/
theorem of_congr {inBlock : Bool} {line line' : String} (h : trim line.toList = trim line'.toList) :
    of v inBlock line = of v inBlock line' := by
  unfold of
  rw [h]

/-- Only header lines are judged by what stood before them. -/
theorem of_of_not_header {inBlock : Bool} (h : inBlock = true ∨ ¬ IsHeader v line) :
    of v inBlock line = of v true line := by
  have hn : ¬ (inBlock = false ∧ IsHeader v line) := by
    rintro ⟨rfl, hl⟩
    rcases h with h | h
    · cases h
    · exact h hl
  rw [← of_eq_header_iff] at hn
  unfold of at hn ⊢
  simp only at hn ⊢
  split at hn
  · exact absurd rfl hn
  · rename_i hc
    rw [if_neg hc]
    rfl

theorem of_behind {inBlock : Bool} (h : ¬ (inBlock = false ∧ IsHeader v line)) :
    of v inBlock line = of v true line := by
  apply of_of_not_header
  cases inBlock with
  | true => exact .inl rfl
  | false => exact .inr fun hLine => h ⟨rfl, hLine⟩

theorem of_true (v : Vocabulary) (line : String) : of v true line =
    match commandId? v.marker (trim line.toList) with
    | some id => .commandId id
    | none =>
      match afterNestingWord? v.nesting (trim line.toList) with
      | some rest =>
        match takeIdentifier? (trimStart rest) with
        | some (name, _) => .opener (String.ofList name)
        | none => .nameless
      | none => if trim line.toList = ['}'] then .closing else .plain (reference? v (trim line.toList)) := rfl

theorem of_eq_commandId_iff : (∃ id, of v true line = .commandId id) ↔ Announces v line := by
  rw [← commandId?_isSome_iff, Option.isSome_iff_exists, of_true]
  constructor
  · intro ⟨id, h⟩
    split at h
    · rename_i id' hid
      exact ⟨id', hid⟩
    · repeat' split at h
      all_goals cases h
  · intro ⟨id, h⟩
    exact ⟨id, by rw [h]⟩

theorem of_eq_opener_iff {name : String} : of v true line = .opener name ↔ Opens v line name := by
  constructor
  · intro h
    have hna : ¬ Announces v line := fun ha => by
      obtain ⟨id, hid⟩ := of_eq_commandId_iff.mpr ha
      cases h.symm.trans hid
    rw [of_true] at h
    split at h
    · cases h
    split at h
    · rename_i rest hrest
      split at h
      · rename_i cs rest' htake
        cases h
        rw [afterNestingWord?_eq, Option.bind_eq_some_iff] at hrest
        obtain ⟨word, hword, hafter⟩ := hrest
        obtain ⟨ht, hs⟩ := afterSpaced?_eq_some_iff.mp hafter
        obtain ⟨happ, hne, hcs, hstop⟩ := takeIdentifier?_eq_some_iff.mp htake
        refine ⟨hna, word, rest.takeWhile isBlank, rest', hword, ?_, ?_, ?_, ?_, hstop⟩
        · rw [ht, String.toList_ofList, ← happ, trimStart, List.takeWhile_append_dropWhile]
        · cases rest with
          | nil => cases hs
          | cons c rest =>
            cases hs
            simp [show isBlank ' ' = true from by decide]
        · exact fun c hc => List.all_eq_true.mp List.all_takeWhile c hc
        · exact ⟨by simpa using hne, by simpa using hcs⟩
      · cases h
    · split at h
      all_goals cases h
  · intro h
    obtain ⟨hna, word, blanks, rest, hword, ht, hbne, hb, ⟨hne, hname⟩, hstop⟩ := h
    have hnone : commandId? v.marker (trim line.toList) = none := by
      rw [← Option.not_isSome_iff_eq_none, commandId?_isSome_iff]
      exact hna
    have hpre : word.toList ++ [' '] <+: trim line.toList := by
      simpa [List.isPrefixOf_iff_prefix] using List.find?_some hword
    have hafter : afterSpaced? word.toList (trim line.toList) = some (blanks ++ (name.toList ++ rest)) := by
      refine afterSpaced?_eq_some_iff.mpr ⟨ht, ?_⟩
      rw [ht, List.prefix_append_right_inj] at hpre
      obtain ⟨ds, hds⟩ := hpre
      rw [← hds]
      rfl
    have htrim : trimStart (blanks ++ (name.toList ++ rest)) = name.toList ++ rest := by
      rw [trimStart_append_of_blank hb]
      cases hl : name.toList with
      | nil => exact absurd hl hne
      | cons c cs => exact trimStart_cons (isBlank_of_isIdentifierChar (hname c (by simp [hl]))) _
    rw [of_true, hnone, afterNestingWord?_eq, hword]
    simp only [Option.bind_some, hafter, htrim, takeIdentifier?_append hne hname hstop, String.ofList_toList]

theorem of_eq_closing_iff : of v true line = .closing ↔ Closes line := by
  constructor
  · intro h
    rw [of_true] at h
    split at h
    · cases h
    split at h
    · split at h
      all_goals cases h
    · split at h
      · rename_i hc
        exact hc
      · cases h
  · intro h
    have hnone : commandId? v.marker (trim line.toList) = none := by
      rw [← Option.not_isSome_iff_eq_none, commandId?_isSome_iff]
      exact h.not_announces
    have hword : nestingWord? v line = none := by
      refine List.find?_eq_none.mpr fun word _ hp => ?_
      rw [List.isPrefixOf_iff_prefix, h] at hp
      exact absurd (hp.subset (List.mem_append_right _ (List.mem_singleton_self _))) (by decide)
    rw [of_true, hnone, afterNestingWord?_eq, hword]
    exact if_pos h

theorem eq_of_of_eq_plain {named? : Option String} (h : of v true line = .plain named?) :
    named? = reference? v (trim line.toList) := by
  rw [of_true] at h
  split at h
  · cases h
  split at h
  · split at h
    all_goals cases h
  · split at h
    · cases h
    · cases h
      rfl

theorem of_true_ne_header : of v true line ≠ .header := by
  rw [Ne, of_eq_header_iff]
  simp

/-! ## Named types -/

theorem isIdentifier_of_takeIdentifier? {cs name rest : List Char} (h : takeIdentifier? cs = some (name, rest)) :
    IsIdentifier (String.ofList name) := by
  obtain ⟨hne, hname, _⟩ := takeIdentifier?_eq_some h
  unfold IsIdentifier
  rw [String.toList_ofList]
  exact ⟨hne, hname⟩

theorem isIdentifier_of_labeled? {cs name : List Char} (h : labeled? cs = some name) :
    IsIdentifier (String.ofList name) := by
  obtain ⟨⟨_, rest⟩, _, h⟩ := Option.bind_eq_some_iff.mp h
  dsimp only at h
  split at h
  · obtain ⟨⟨_, rest⟩, hTake, h⟩ := Option.bind_eq_some_iff.mp h
    cases h
    exact isIdentifier_of_takeIdentifier? hTake
  · cases h

theorem isIdentifier_of_mapValueAtStart? {cs name : List Char} (h : mapValueAtStart? cs = some name) :
    IsIdentifier (String.ofList name) := by
  obtain ⟨_, _, h⟩ := Option.bind_eq_some_iff.mp h
  obtain ⟨_, _, h⟩ := Option.bind_eq_some_iff.mp h
  obtain ⟨_, _, h⟩ := Option.bind_eq_some_iff.mp h
  obtain ⟨⟨_, _⟩, hTake, h⟩ := Option.bind_eq_some_iff.mp h
  obtain ⟨_, _, h⟩ := Option.bind_eq_some_iff.mp h
  cases h
  exact isIdentifier_of_takeIdentifier? hTake

theorem isIdentifier_of_mapValue? {cs name : List Char} (h : mapValue? cs = some name) :
    IsIdentifier (String.ofList name) := by
  induction cs with
  | nil => cases h
  | cons c cs ih =>
    rcases Option.or_eq_some_iff.mp h with h | ⟨_, h⟩
    · exact isIdentifier_of_mapValueAtStart? h
    · exact ih h

theorem isIdentifier_of_reference? {t : List Char} {name : String} (h : reference? v t = some name) :
    IsIdentifier name := by
  unfold reference? at h
  split at h
  · cases h
  rename_i hTake
  split at h
  · cases h
  dsimp only at h
  split at h
  · cases h
    exact isIdentifier_of_takeIdentifier? hTake
  · obtain ⟨word, hWord, rfl⟩ := Option.map_eq_some_iff.mp (Option.filter_eq_some_iff.mp h).1
    exact isIdentifier_of_labeled? hWord
  · obtain ⟨word, hWord, rfl⟩ := Option.map_eq_some_iff.mp (Option.filter_eq_some_iff.mp h).1
    exact isIdentifier_of_mapValue? hWord
  all_goals cases h

theorem reference?_of_isEnumValue {t : List Char} (h : isEnumValue t = true) : reference? v t = none := by
  unfold reference?
  split
  · rfl
  · rw [if_pos h]

end LineKind

namespace Line

def opened? (v : Vocabulary) (line : String) : Option String :=
  match LineKind.of v true line with
  | .opener name => some name
  | _ => none

theorem opened?_eq_some_iff {v : Vocabulary} {line name : String} : opened? v line = some name ↔ Opens v line name := by
  rw [← LineKind.of_eq_opener_iff, opened?]
  split <;> simp_all

instance (v : Vocabulary) (line name : String) : Decidable (Opens v line name) :=
  decidable_of_iff (opened? v line = some name) opened?_eq_some_iff

/-! ## Blanks at the ends of a line -/

section
variable {v : Vocabulary} {line line' name : String} (h : Text.trim line.toList = Text.trim line'.toList)
include h

theorem isHeader_congr : IsHeader v line ↔ IsHeader v line' := by
  unfold IsHeader
  rw [h]

theorem announces_congr : Announces v line ↔ Announces v line' := by
  unfold Announces
  rw [h]

theorem closes_congr : Closes line ↔ Closes line' := by
  unfold Closes
  rw [h]

theorem opens_congr : Opens v line name ↔ Opens v line' name := by
  rw [← LineKind.of_eq_opener_iff, LineKind.of_congr h, LineKind.of_eq_opener_iff]

theorem idle_congr : Idle v line ↔ Idle v line' := by
  simp only [Idle, opens_congr h, closes_congr h, announces_congr h]

end

instance (v : Vocabulary) (line : String) : Decidable (∃ name, Opens v line name) :=
  decidable_of_iff ((opened? v line).isSome = true) (by simp only [Option.isSome_iff_exists, opened?_eq_some_iff])

theorem Opens.unique {v : Vocabulary} {line name name' : String} (h : Opens v line name) (h' : Opens v line name') :
    name = name' :=
  Option.some.inj ((opened?_eq_some_iff.mpr h).symm.trans (opened?_eq_some_iff.mpr h'))

theorem Opens.not_closes {v : Vocabulary} {line name : String} (h : Opens v line name) : ¬ Closes line := by
  intro hc
  cases (LineKind.of_eq_opener_iff.mpr h).symm.trans (LineKind.of_eq_closing_iff (v := v).mpr hc)

end Line

end Unbundle
