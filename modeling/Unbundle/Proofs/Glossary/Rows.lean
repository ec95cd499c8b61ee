/-
  Unbundle.Proofs.Glossary.Rows — which files a glossary can be read from.

  A glossary is cut into lines as bytes, and every line is read as a text of its own; all other files are read as one
  text. Both refuse the same files.

  (1) `isUtf8_iff_lines`. Bytes are UTF-8 if and only if all their lines are: no byte of a longer character looks like
  the end of a line.

  (2) `readBytes_eq_none_iff`. A glossary is read to its end if and only if its bytes are UTF-8.
-/

import Unbundle.Glossary.Rows

namespace Unbundle

/-! ## (1) Bytes of texts -/

namespace Text

/-- The bytes of characters, one after the other. -/
def bytesOf (cs : List Char) : List UInt8 := cs.flatMap String.utf8EncodeChar

/-- Bytes that are those of a text. -/
def IsUtf8 (bytes : List UInt8) : Prop := ∃ cs, bytes = bytesOf cs

theorem exists_ofBytes?_iff {bytes : List UInt8} : (∃ text, ofBytes? bytes = some text) ↔ IsUtf8 bytes := by
  have hValid : ByteArray.IsValidUTF8 ⟨bytes.toArray⟩ ↔ IsUtf8 bytes := by
    constructor
    · intro h
      obtain ⟨cs, hBytes⟩ := h
      refine ⟨cs, ?_⟩
      simpa [List.utf8Encode, bytesOf] using congrArg (fun b => b.data.toList) hBytes
    · rintro ⟨cs, rfl⟩
      refine .intro cs ?_
      simp [List.utf8Encode, bytesOf, ByteArray.ext_iff]
  rw [← hValid]
  unfold ofBytes? String.fromUTF8?
  split
  · rename_i h
    exact ⟨fun _ => h, fun _ => ⟨_, rfl⟩⟩
  · rename_i h
    refine ⟨fun ⟨_, hNone⟩ => ?_, fun h' => absurd h' h⟩
    cases hNone

/-- The bytes of a text stand for it. -/
theorem ofBytes?_toBytes (text : String) : ofBytes? (toBytes text) = some text := by
  have hBytes : (⟨(toBytes text).toArray⟩ : ByteArray) = text.toUTF8 := by rw [toBytes, Array.toArray_toList]
  rw [ofBytes?, hBytes, String.fromUTF8?, String.toUTF8_eq_toByteArray, dif_pos text.isValidUTF8]
  rfl

/-- The bytes that end lines stand for themselves. -/
theorem of_mem_utf8EncodeChar {c : Char} {b : UInt8} (h : b ∈ String.utf8EncodeChar c) :
    (b = 10 → c = '\n') ∧ (b = 13 → c = '\r') := by
  have hChar : ∀ d : Char, c.val.toNat = d.val.toNat → c = d := by
    intro d hd
    exact Char.ext (UInt32.toNat_inj.mp hd)
  have hByte : b.toNat = c.val.toNat ∨ 128 ≤ b.toNat := by
    simp only [String.utf8EncodeChar] at h
    split at h
    · left
      obtain rfl := List.mem_singleton.mp h
      rw [UInt8.toNat_ofNat']
      omega
    · right
      split at h
      · simp only [List.mem_cons, List.not_mem_nil, or_false] at h
        rcases h with rfl | rfl
        all_goals rw [UInt8.toNat_ofNat']
        all_goals omega
      · split at h
        all_goals
          simp only [List.mem_cons, List.not_mem_nil, or_false] at h
        · rcases h with rfl | rfl | rfl
          all_goals rw [UInt8.toNat_ofNat']
          all_goals omega
        · rcases h with rfl | rfl | rfl | rfl
          all_goals rw [UInt8.toNat_ofNat']
          all_goals omega
  constructor
  · rintro rfl
    rcases hByte with hSame | hHigh
    · exact hChar '\n' hSame.symm
    · exact absurd hHigh (by decide)
  · rintro rfl
    rcases hByte with hSame | hHigh
    · exact hChar '\r' hSame.symm
    · exact absurd hHigh (by decide)

/-- Bytes that end no line begin the next one. -/
def prepend (front : List UInt8) : List (List UInt8) → List (List UInt8)
  | [] => [front]
  | line :: rest => (front ++ line) :: rest

theorem cutByteLines_cons {b : UInt8} {bytes : List UInt8} (h : b ≠ 10) (h' : ∀ more, b = 13 → bytes ≠ 10 :: more) :
    cutByteLines (b :: bytes) = prepend [b] (cutByteLines bytes) := by
  rw [cutByteLines.eq_4 b bytes h h']
  rcases cutByteLines bytes with _ | ⟨line, rest⟩ <;> rfl

theorem cutByteLines_append {front : List UInt8} (hne : front ≠ []) (h : ∀ b ∈ front, b ≠ 10 ∧ b ≠ 13)
    (bytes : List UInt8) : cutByteLines (front ++ bytes) = prepend front (cutByteLines bytes) := by
  induction front with
  | nil => exact absurd rfl hne
  | cons b front ih =>
    obtain ⟨hFeed, hReturn⟩ := h b List.mem_cons_self
    rw [List.cons_append, cutByteLines_cons hFeed fun _ hb => absurd hb hReturn]
    cases front with
    | nil => rfl
    | cons next front =>
      rw [ih (List.cons_ne_nil _ _) (fun b hb => h b (List.mem_cons_of_mem _ hb))]
      rcases cutByteLines bytes with _ | ⟨line, rest⟩ <;> rfl

/-- A character that ends no line stays in front of the next one. -/
theorem cutLines_cons {c : Char} {cs : List Char} (h : c ≠ '\n') (h' : ∀ more, c = '\r' → cs ≠ '\n' :: more) :
    (cutLines (c :: cs)).map bytesOf = prepend (String.utf8EncodeChar c) ((cutLines cs).map bytesOf) := by
  rw [cutLines.eq_4 c cs h h']
  rcases cutLines cs with _ | ⟨line, rest⟩
  · simp [prepend, bytesOf]
  · rfl

theorem utf8EncodeChar_ne_nil (c : Char) : String.utf8EncodeChar c ≠ [] := by
  intro h
  have hLength := String.length_utf8EncodeChar c
  have hSize := c.utf8Size_pos
  rw [h, List.length_nil] at hLength
  omega

theorem exists_of_bytesOf_eq {cs : List Char} {bytes : List UInt8} (h : bytesOf cs = 10 :: bytes) :
    ∃ more, cs = '\n' :: more := by
  cases cs with
  | nil => cases h
  | cons c cs =>
    obtain ⟨b, rest, hChar⟩ := List.exists_cons_of_ne_nil (utf8EncodeChar_ne_nil c)
    rw [bytesOf, List.flatMap_cons, hChar] at h
    have hMem : 10 ∈ String.utf8EncodeChar c := by
      rw [hChar, (List.cons.inj h).1]
      exact List.mem_cons_self
    exact ⟨cs, by rw [(of_mem_utf8EncodeChar hMem).1 rfl]⟩

/-- A text is cut as its bytes are. -/
theorem cutByteLines_bytesOf (cs : List Char) : cutByteLines (bytesOf cs) = (cutLines cs).map bytesOf := by
  have hStep : ∀ {c : Char} {cs : List Char}, c ≠ '\n' → (∀ more, c = '\r' → cs ≠ '\n' :: more) →
      cutByteLines (bytesOf cs) = (cutLines cs).map bytesOf →
      cutByteLines (bytesOf (c :: cs)) = (cutLines (c :: cs)).map bytesOf := by
    intro c cs hFeed hReturn ih
    rw [cutLines_cons hFeed hReturn, ← ih]
    by_cases hc : c = '\r'
    · subst hc
      refine cutByteLines_cons (by decide) fun _ _ hBytes => ?_
      obtain ⟨more, hMore⟩ := exists_of_bytesOf_eq hBytes
      exact hReturn more rfl hMore
    · refine cutByteLines_append (utf8EncodeChar_ne_nil c) (fun b hb => ?_) (bytesOf cs)
      obtain ⟨hTen, hThirteen⟩ := of_mem_utf8EncodeChar hb
      exact ⟨fun h => hFeed (hTen h), fun h => hc (hThirteen h)⟩
  induction cs using cutLines.induct with
  | case1 => rfl
  | case2 cs ih => exact congrArg ([] :: ·) ih
  | case3 cs ih => exact congrArg ([] :: ·) ih
  | case4 c cs hFeed hReturn _ ih => exact hStep hFeed hReturn ih
  | case5 c cs hFeed hReturn _ _ _ ih => exact hStep hFeed hReturn ih

theorem IsUtf8.append {front bytes : List UInt8} (h : IsUtf8 front) (h' : IsUtf8 bytes) : IsUtf8 (front ++ bytes) := by
  obtain ⟨cs, rfl⟩ := h
  obtain ⟨ds, rfl⟩ := h'
  exact ⟨cs ++ ds, (List.flatMap_append).symm⟩

theorem prepend_prepend (front next : List UInt8) (lines : List (List UInt8)) :
    prepend front (prepend next lines) = prepend (front ++ next) lines := by
  cases lines with
  | nil => rfl
  | cons line rest => simp [prepend]

theorem forall_prepend_nil_iff {lines : List (List UInt8)} :
    (∀ line ∈ prepend [] lines, IsUtf8 line) ↔ ∀ line ∈ lines, IsUtf8 line := by
  cases lines with
  | nil =>
    have hNil : IsUtf8 [] := ⟨[], rfl⟩
    simp [prepend, hNil]
  | cons line rest => rfl

/-- Between lines stand the bytes that end them, and nothing else. -/
theorem isUtf8_of_lines (front bytes : List UInt8) (h : ∀ line ∈ prepend front (cutByteLines bytes), IsUtf8 line) :
    IsUtf8 (front ++ bytes) := by
  have hEnds : ∀ (ends bytes : List UInt8), IsUtf8 ends →
      (∀ front, (∀ line ∈ prepend front (cutByteLines bytes), IsUtf8 line) → IsUtf8 (front ++ bytes)) →
      ∀ front, (∀ line ∈ prepend front ([] :: cutByteLines bytes), IsUtf8 line) →
        IsUtf8 (front ++ (ends ++ bytes)) := by
    intro ends bytes hEnds ih front h
    obtain ⟨hFront, hRest⟩ := List.forall_mem_cons.mp h
    rw [List.append_nil] at hFront
    exact hFront.append (hEnds.append (ih [] (forall_prepend_nil_iff.mpr hRest)))
  have hStays : ∀ {b : UInt8} {bytes : List UInt8}, b ≠ 10 → (∀ more, b = 13 → bytes ≠ 10 :: more) →
      (∀ front, (∀ line ∈ prepend front (cutByteLines bytes), IsUtf8 line) → IsUtf8 (front ++ bytes)) →
      ∀ front, (∀ line ∈ prepend front (cutByteLines (b :: bytes)), IsUtf8 line) → IsUtf8 (front ++ b :: bytes) := by
    intro b bytes hFeed hReturn ih front h
    rw [cutByteLines_cons hFeed hReturn, prepend_prepend] at h
    rw [List.append_cons]
    exact ih _ h
  induction bytes using cutByteLines.induct generalizing front with
  | case1 => simpa [prepend, cutByteLines] using h
  | case2 bytes ih => exact hEnds [10] bytes ⟨['\n'], rfl⟩ ih front h
  | case3 bytes ih => exact hEnds [13, 10] bytes ⟨['\r', '\n'], rfl⟩ ih front h
  | case4 b bytes hFeed hReturn _ ih => exact hStays hFeed hReturn ih front h
  | case5 b bytes hFeed hReturn _ _ _ ih => exact hStays hFeed hReturn ih front h

/-- Bytes are those of a text if and only if all their lines are. -/
theorem isUtf8_iff_lines {bytes : List UInt8} : IsUtf8 bytes ↔ ∀ line ∈ cutByteLines bytes, IsUtf8 line := by
  constructor
  · rintro ⟨cs, rfl⟩ line hLine
    rw [cutByteLines_bytesOf] at hLine
    obtain ⟨ds, _, rfl⟩ := List.mem_map.mp hLine
    exact ⟨ds, rfl⟩
  · intro h
    exact isUtf8_of_lines [] bytes (forall_prepend_nil_iff.mpr h)

end Text

/-! ## (2) Rows of a file -/

namespace Draft

theorem readLines_eq_none_iff {d : Draft} {number : Nat} {lines : List (List UInt8)} :
    (d.readLines number lines).value.2 = none ↔ ∀ line ∈ lines, Text.IsUtf8 line := by
  induction lines generalizing d number with
  | nil => simp [readLines]
  | cons bytes rest ih =>
    rw [List.forall_mem_cons, ← Text.exists_ofBytes?_iff]
    rcases hText : Text.ofBytes? bytes with _ | line
    · rw [readLines, hText]
      simp
    · rw [and_iff_right ⟨line, rfl⟩]
      by_cases hHeading : number = 1
      · rw [readLines, hText]
        simp only [if_pos hHeading]
        exact ih
      · rw [d.readLines_cons hText hHeading]
        exact ih

/-- A glossary is read to its end if and only if its bytes are UTF-8. -/
theorem readBytes_eq_none_iff {d : Draft} {bytes : List UInt8} : (d.readBytes bytes).value.2 = none ↔
    ∃ text, Text.ofBytes? bytes = some text := by
  rw [readBytes, readLines_eq_none_iff, Text.exists_ofBytes?_iff, Text.isUtf8_iff_lines]

end Draft

end Unbundle
