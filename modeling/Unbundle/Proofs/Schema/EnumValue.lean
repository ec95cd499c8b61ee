/-
  Unbundle.Proofs.Schema.EnumValue — value lines of an enum, and the types they name.

  A value line is told from a field by its number. Only digits are looked for, so a value with a minus sign or with a
  hexadecimal number is not known as one, and its name is taken for a type.

  - `isEnumValue_of_isInteger`: the number alone decides whether a value line is known as one.
  - `EnumValue.idle`: a value line opens nothing, closes nothing and announces nothing, whatever its name is.
  - `EnumValue.reference?_line`: what a value line names.

  The vocabulary is the standard one.
-/

import Unbundle.Proofs.Schema.Field
import Unbundle.Text.Hex

namespace Unbundle

open Line Text

/-- Digits, or a hexadecimal number. -/
def IsMagnitude (cs : List Char) : Prop :=
  (cs ≠ [] ∧ ∀ c ∈ cs, c.isDigit = true) ∨
    ∃ x ds, cs = '0' :: x :: ds ∧ (x = 'x' ∨ x = 'X') ∧ ds ≠ [] ∧ ∀ c ∈ ds, isHexDigit c = true

/-- An integer constant: decimal, octal or hexadecimal. Blanks may stand behind the minus sign. -/
def IsInteger (cs : List Char) : Prop :=
  IsMagnitude cs ∨ ∃ blanks digits, cs = '-' :: (blanks ++ digits) ∧ Blanks blanks ∧ IsMagnitude digits

/-- A value line of an enum. -/
structure EnumValue where
  name : String
  number : List Char
  line : String
  isIdentifier : IsIdentifier name
  isInteger : IsInteger number
  written : ∃ b₁ b₂ b₃ b₄ b₅ : List Char, (Blanks b₁ ∧ Blanks b₂ ∧ Blanks b₃ ∧ Blanks b₄ ∧ Blanks b₅) ∧
    line.toList = b₁ ++ (name.toList ++ (b₂ ++ '=' :: (b₃ ++ (number ++ (b₄ ++ ';' :: b₅)))))

/-! ## Numbers -/

/-- No number has the mark of a map type in it. -/
theorem IsMagnitude.not_mem_mark {cs : List Char} (h : IsMagnitude cs) : '<' ∉ cs := by
  rcases h with ⟨_, hDigits⟩ | ⟨x, ds, rfl, hx, _, hHex⟩
  · exact fun hMem => absurd (hDigits _ hMem) (by decide)
  · simp only [List.mem_cons, not_or]
    refine ⟨by decide, ?_, fun hMem => absurd (hHex _ hMem) (by decide)⟩
    rcases hx with rfl | rfl <;> decide

theorem not_mem_mark_of_blanks {blanks : List Char} (h : Blanks blanks) : '<' ∉ blanks :=
  fun hMem => absurd (h _ hMem) (by decide)

theorem IsInteger.not_mem_mark {cs : List Char} (h : IsInteger cs) : '<' ∉ cs := by
  rcases h with h | ⟨blanks, digits, rfl, hBlanks, h⟩
  · exact h.not_mem_mark
  · simp only [List.mem_cons, List.mem_append, not_or]
    exact ⟨by decide, not_mem_mark_of_blanks hBlanks, h.not_mem_mark⟩

namespace LineKind

/-- Behind the equals sign nothing counts but digits, and a semicolon behind them. -/
theorem isEnumValue_append {name : String} {blanks : List Char} (hName : IsIdentifier name) (hBlanks : Blanks blanks)
    (rest : List Char) : isEnumValue (name.toList ++ (blanks ++ '=' :: rest)) =
      (!((trimStart rest).takeWhile isDigit).isEmpty &&
        (trimStart ((trimStart rest).dropWhile isDigit)).head? == some ';') := by
  have hEnds : EndsWord (blanks ++ '=' :: rest) := (endsWord_cons (by decide) rest).append_of_blanks hBlanks
  unfold isEnumValue
  rw [takeIdentifier?_word hName hEnds]
  simp only [trimStart_mark hBlanks (by decide : isBlank '=' = false)]

section
variable {name : String} {b₂ b₃ b₄ : List Char} (hName : IsIdentifier name) (h₂ : Blanks b₂) (h₃ : Blanks b₃)
include hName h₂ h₃

theorem isEnumValue_of_digits (h₄ : Blanks b₄) {number : List Char} (hne : number ≠ [])
    (hDigits : ∀ c ∈ number, c.isDigit = true) (rest : List Char) :
    isEnumValue (name.toList ++ (b₂ ++ '=' :: (b₃ ++ (number ++ (b₄ ++ ';' :: rest))))) = true := by
  have hAll : ∀ c ∈ number, isDigit c = true := fun c hc => isDigit_of_ascii (hDigits c hc)
  have hNumber : trimStart (b₃ ++ (number ++ (b₄ ++ ';' :: rest))) = number ++ (b₄ ++ ';' :: rest) := by
    obtain ⟨d, ds, rfl⟩ := List.exists_cons_of_ne_nil hne
    exact trimStart_mark h₃ (Bool.eq_false_iff.mpr fun hd =>
      Bool.false_ne_true ((stops_asciiDigit.2 d hd).symm.trans (hDigits d List.mem_cons_self))) _
  -- no blank is a digit, and neither is the semicolon, so the run of digits ends with the number
  obtain ⟨d, ds, hBehind, hd⟩ : ∃ d ds, b₄ ++ ';' :: rest = d :: ds ∧ isDigit d = false := by
    cases b₄ with
    | nil => exact ⟨_, _, rfl, by decide⟩
    | cons c b₄ => exact ⟨_, _, rfl, stops_isDigit.2 c (h₄ c List.mem_cons_self)⟩
  have hRun : (number ++ (b₄ ++ ';' :: rest)).takeWhile isDigit = number := by
    rw [List.takeWhile_append_of_pos hAll, hBehind, List.takeWhile_cons_of_neg (by simp [hd]), List.append_nil]
  have hRest : (number ++ (b₄ ++ ';' :: rest)).dropWhile isDigit = b₄ ++ ';' :: rest := by
    rw [List.dropWhile_append_of_pos hAll, hBehind, List.dropWhile_cons_of_neg (by simp [hd])]
  rw [isEnumValue_append hName h₂, hNumber, hRun, hRest, trimStart_mark h₄ (by decide)]
  simpa using hne

theorem isEnumValue_of_hex {x : Char} (hx : x = 'x' ∨ x = 'X') (rest : List Char) :
    isEnumValue (name.toList ++ (b₂ ++ '=' :: (b₃ ++ '0' :: x :: rest))) = false := by
  rw [isEnumValue_append hName h₂, trimStart_mark h₃ (by decide)]
  rcases hx with rfl | rfl <;> rfl

theorem isEnumValue_of_minus (rest : List Char) :
    isEnumValue (name.toList ++ (b₂ ++ '=' :: (b₃ ++ '-' :: rest))) = false := by
  rw [isEnumValue_append hName h₂, trimStart_mark h₃ (by decide)]
  rfl

/-- A value line is known as one if its number is written with digits only. -/
theorem isEnumValue_of_isInteger (h₄ : Blanks b₄) {number : List Char} (hNumber : IsInteger number)
    (rest : List Char) : isEnumValue (name.toList ++ (b₂ ++ '=' :: (b₃ ++ (number ++ (b₄ ++ ';' :: rest))))) =
      number.all Char.isDigit := by
  rcases hNumber with (⟨hne, hDigits⟩ | ⟨x, ds, rfl, hx, _, _⟩) | ⟨blanks, digits, rfl, _, _⟩
  · rw [isEnumValue_of_digits hName h₂ h₃ h₄ hne hDigits, List.all_eq_true.mpr hDigits]
  · simp only [List.cons_append]
    rw [isEnumValue_of_hex hName h₂ h₃ hx]
    rcases hx with rfl | rfl <;> rfl
  · simp only [List.cons_append]
    rw [isEnumValue_of_minus hName h₂ h₃]
    rfl

end

end LineKind

/-! ## Value lines -/

namespace EnumValue

variable {suppressed : List String}

/-- The type that is taken from a value line. -/
def import? (v : Vocabulary) (e : EnumValue) : Option String :=
  if e.number.all Char.isDigit then none else if v.classify e.name = .custom then some e.name else none

theorem exists_trim (e : EnumValue) : ∃ b₂ b₃ b₄ : List Char, (Blanks b₂ ∧ Blanks b₃ ∧ Blanks b₄) ∧
    trim e.line.toList = e.name.toList ++ (b₂ ++ '=' :: (b₃ ++ (e.number ++ (b₄ ++ [';'])))) := by
  obtain ⟨b₁, b₂, b₃, b₄, b₅, ⟨h₁, h₂, h₃, h₄, h₅⟩, hLine⟩ := e.written
  refine ⟨b₂, b₃, b₄, ⟨h₂, h₃, h₄⟩, ?_⟩
  have hCut := trimEnd_append_cons (by decide : isBlank ';' = false)
    (e.name.toList ++ (b₂ ++ '=' :: (b₃ ++ (e.number ++ b₄)))) b₅
  simp only [List.append_assoc, List.cons_append, trimEnd_eq_nil_of_blank h₅] at hCut
  rw [trim, hLine, trimStart_word h₁ e.isIdentifier, hCut]

/-- The first word of a value line is its name, and an equals sign comes next. -/
theorem exists_takeIdentifier? (e : EnumValue) : ∃ rest behind,
    takeIdentifier? (trim e.line.toList) = some (e.name.toList, rest) ∧ trimStart rest = '=' :: behind := by
  obtain ⟨b₂, b₃, b₄, ⟨h₂, _, _⟩, hTrim⟩ := e.exists_trim
  have hEnds : EndsWord (b₂ ++ '=' :: (b₃ ++ (e.number ++ (b₄ ++ [';'])))) :=
    (endsWord_cons (by decide) _).append_of_blanks h₂
  exact ⟨_, _, hTrim ▸ takeIdentifier?_word e.isIdentifier hEnds, trimStart_mark h₂ (by decide) _⟩

theorem isEnumValue_trim (e : EnumValue) :
    LineKind.isEnumValue (trim e.line.toList) = e.number.all Char.isDigit := by
  obtain ⟨b₂, b₃, b₄, ⟨h₂, h₃, h₄⟩, hTrim⟩ := e.exists_trim
  rw [hTrim, LineKind.isEnumValue_of_isInteger e.isIdentifier h₂ h₃ h₄ e.isInteger]

theorem not_mem_mark (e : EnumValue) : '<' ∉ trim e.line.toList := by
  obtain ⟨b₂, b₃, b₄, ⟨h₂, h₃, h₄⟩, hTrim⟩ := e.exists_trim
  rw [hTrim]
  simp only [List.mem_append, List.mem_cons, List.not_mem_nil, not_or, or_false]
  exact ⟨fun hMem => absurd (e.isIdentifier.2 _ hMem) (by decide), not_mem_mark_of_blanks h₂, by decide,
    not_mem_mark_of_blanks h₃, e.isInteger.not_mem_mark, not_mem_mark_of_blanks h₄, by decide⟩

/-- No second word follows the first one, not even behind a label. -/
theorem labeled?_trim (e : EnumValue) : LineKind.labeled? (trim e.line.toList) = none := by
  obtain ⟨rest, behind, hTake, hNext⟩ := e.exists_takeIdentifier?
  have hNone : takeIdentifier? ('=' :: behind) = none := rfl
  unfold LineKind.labeled?
  rw [hTake]
  simp only [Option.bind_eq_bind, Option.bind_some, hNext, hNone, Option.bind_none, ite_self]

/-- Whatever the name of a value is, the line is no nesting line, no closing brace and no announcement. -/
theorem idle (e : EnumValue) : Idle (.protobuf suppressed) e.line := by
  obtain ⟨rest, behind, hTake, hNext⟩ := e.exists_takeIdentifier?
  refine ⟨?_, not_announces_of_word hTake⟩
  rintro (⟨name, hOpens⟩ | hCloses)
  · exact not_opens_of_word hTake hNext (by decide) name hOpens
  · exact not_closes_of_word hTake hCloses

/-- A value names nothing if its number is written with digits only, and its own name otherwise. -/
theorem reference?_line (e : EnumValue) :
    Line.reference? (.protobuf suppressed) e.line = e.import? (.protobuf suppressed) := by
  obtain ⟨rest, behind, hTake, hNext⟩ := e.exists_takeIdentifier?
  rw [LineKind.reference?_eq_of_word hTake, import?]
  have hValue := e.isEnumValue_trim
  by_cases hDigits : e.number.all Char.isDigit = true
  · rw [LineKind.reference?_of_isEnumValue (hValue.trans hDigits), if_pos hDigits]
  · rw [LineKind.reference?_of_word hTake (hValue.trans (Bool.eq_false_iff.mpr hDigits)), if_neg hDigits,
      e.labeled?_trim, LineKind.mapValue?_of_not_mem e.not_mem_mark]
    cases (Vocabulary.protobuf suppressed).classify e.name <;> rfl

end EnumValue

end Unbundle
