/-
  Unbundle.Proofs.Schema.Field — lines that declare a field, and the type they name.

  Fields are known by their first words alone. Behind the type of a single field comes its name, and behind the name of
  an enum value an equals sign, so neither is taken for the other; behind a label the type counts, and of a map type
  what it maps to, whatever follows.

  - `not_opens_of_word`, `of_eq_plain_of_word`: what the first word of a line rules out.
  - `reference?_of_word`, `reference?_eq_of_word`: what a line names, once its first word is known.
  - `reference?_of_field`: a field names its type if that is one that counts, and a map type never names its key.
  - `push_field`: a field inside a block leaves its text and its type there, and changes nothing else.

  The vocabulary is the standard one.
-/

import Unbundle.Proofs.Schema.Remark
import Unbundle.Proofs.Schema.Run

namespace Unbundle

namespace Line

open Text

/-- A field from its first word on: the word, the type of the field, the text. -/
inductive IsField : String → String → List Char → Prop
  /-- A type, a name and an equals sign. -/
  | single {type name : String} {blanks more rest : List Char} : IsIdentifier type → type ∉ Vocabulary.nestingWords →
      type ∉ Vocabulary.labelWords → type ≠ Vocabulary.mapWord → blanks ≠ [] → Blanks blanks → IsIdentifier name →
      Blanks more → IsField type type (type.toList ++ (blanks ++ (name.toList ++ (more ++ '=' :: rest))))
  /-- A label, a type and a name. -/
  | labeled {label type name : String} {blanks more rest : List Char} : label ∈ Vocabulary.labelWords → blanks ≠ [] →
      Blanks blanks → IsIdentifier type → more ≠ [] → Blanks more → IsIdentifier name →
      IsField label type (label.toList ++ (blanks ++ (type.toList ++ (more ++ (name.toList ++ rest)))))
  /-- A map type. -/
  | map {key type : String} {b₁ b₂ b₃ b₄ rest : List Char} : IsIdentifier key → IsIdentifier type → Blanks b₁ →
      Blanks b₂ → Blanks b₃ → Blanks b₄ → IsField Vocabulary.mapWord type (Vocabulary.mapWord.toList ++
        '<' :: (b₁ ++ (key.toList ++ (b₂ ++ ',' :: (b₃ ++ (type.toList ++ (b₄ ++ '>' :: rest)))))))

theorem isIdentifier_words : ∀ word ∈ Vocabulary.nestingWords ++ Vocabulary.labelWords, IsIdentifier word := by
  have hWords : ∀ word ∈ Vocabulary.nestingWords ++ Vocabulary.labelWords,
      word.toList ≠ [] ∧ word.toList.all isIdentifierChar = true := by decide
  exact fun word h => ⟨(hWords word h).1, List.all_eq_true.mp (hWords word h).2⟩

theorem isIdentifier_mapWord : IsIdentifier Vocabulary.mapWord := ⟨by decide, List.all_eq_true.mp (by decide)⟩

namespace IsField

variable {word type : String} {t : List Char}

/-- Blanks at the end of a field do not count, for its form leaves the end open. -/
theorem trimEnd (h : IsField word type t) : IsField word type (trimEnd t) := by
  cases h with
  | @single _ name blanks more rest hType hNesting hLabel hMap hne hBlanks hName hMore =>
    have hCut := trimEnd_append_cons (by decide : isBlank '=' = false)
      (word.toList ++ (blanks ++ (name.toList ++ more))) rest
    simp only [List.append_assoc] at hCut
    rw [hCut]
    exact .single hType hNesting hLabel hMap hne hBlanks hName hMore
  | @labeled label _ name blanks more rest hLabel hne hBlanks hType hne' hMore hName =>
    -- the name of the field ends in the last character that is sure to stay
    obtain ⟨front, last, hEnd⟩ := (List.eq_nil_or_concat name.toList).resolve_left hName.1
    rw [List.concat_eq_append] at hEnd
    have hLast : isBlank last = false := isBlank_of_isIdentifierChar (hName.2 last (by simp [hEnd]))
    have hCut := trimEnd_append_cons hLast (word.toList ++ (blanks ++ (type.toList ++ (more ++ front)))) rest
    have hJoin : ∀ ds : List Char, word.toList ++ (blanks ++ (type.toList ++ (more ++ front))) ++ last :: ds =
        word.toList ++ (blanks ++ (type.toList ++ (more ++ (name.toList ++ ds)))) := by simp [hEnd]
    rw [hJoin, hJoin] at hCut
    rw [hCut]
    exact .labeled hLabel hne hBlanks hType hne' hMore hName
  | @map key _ b₁ b₂ b₃ b₄ rest hKey hType h₁ h₂ h₃ h₄ =>
    have hCut := trimEnd_append_cons (by decide : isBlank '>' = false) (Vocabulary.mapWord.toList ++
      '<' :: (b₁ ++ (key.toList ++ (b₂ ++ ',' :: (b₃ ++ (type.toList ++ b₄)))))) rest
    simp only [List.append_assoc, List.cons_append] at hCut
    rw [hCut]
    exact .map hKey hType h₁ h₂ h₃ h₄

/-- The first word is an identifier, but no nesting word. -/
theorem isIdentifier_word (h : IsField word type t) : IsIdentifier word ∧ word ∉ Vocabulary.nestingWords := by
  cases h with
  | single hType hNesting => exact ⟨hType, hNesting⟩
  | labeled hLabel =>
    have hNone : ∀ label ∈ Vocabulary.labelWords, label ∉ Vocabulary.nestingWords := by decide
    exact ⟨isIdentifier_words word (List.mem_append_right _ hLabel), hNone word hLabel⟩
  | map => exact ⟨isIdentifier_mapWord, by decide⟩

/-- Behind the first word the word ends, and no equals sign comes next. -/
theorem exists_takeIdentifier? (h : IsField word type t) :
    ∃ rest, takeIdentifier? t = some (word.toList, rest) ∧ (trimStart rest).head? ≠ some '=' := by
  have hHead : ∀ {blanks : List Char} {next : String} (rest : List Char), Blanks blanks → IsIdentifier next →
      (trimStart (blanks ++ (next.toList ++ rest))).head? ≠ some '=' := by
    intro blanks next rest hBlanks hNext hEquals
    obtain ⟨c, cs, hText, hc⟩ := exists_cons_of_isIdentifier hNext
    rw [trimStart_word hBlanks hNext, hText] at hEquals
    cases hEquals
    exact absurd hc (by decide)
  have hWord := h.isIdentifier_word.1
  cases h with
  | single _ _ _ _ hne hBlanks hName => exact ⟨_, takeIdentifier?_word hWord (endsWord_of_blanks hne hBlanks _),
      hHead _ hBlanks hName⟩
  | labeled _ hne hBlanks hType => exact ⟨_, takeIdentifier?_word hWord (endsWord_of_blanks hne hBlanks _),
      hHead _ hBlanks hType⟩
  | map =>
    refine ⟨_, takeIdentifier?_word hWord (endsWord_cons (by decide) _), ?_⟩
    rw [trimStart_cons (by decide), List.head?_cons]
    decide

end IsField

/-! ## Lines that start with a word -/

section
variable {suppressed : List String} {line : String} {word rest : List Char}
  (hTake : takeIdentifier? (trim line.toList) = some (word, rest))
include hTake

theorem exists_head?_of_word : ∃ c, head? line = some c ∧ isIdentifierChar c = true := by
  obtain ⟨hText, hne, hChars, _⟩ := takeIdentifier?_eq_some_iff.mp hTake
  obtain ⟨c, cs, rfl⟩ := List.exists_cons_of_ne_nil hne
  exact ⟨c, by rw [head?, hText]; rfl, hChars c List.mem_cons_self⟩

theorem not_announces_of_word : ¬ Announces (.protobuf suppressed) line := by
  intro h
  obtain ⟨c, hHead, hc⟩ := exists_head?_of_word hTake
  obtain rfl := Option.some.inj (hHead.symm.trans h.head?_eq)
  exact absurd hc (by decide)

theorem not_closes_of_word : ¬ Closes line := by
  intro h
  obtain ⟨c, hHead, hc⟩ := exists_head?_of_word hTake
  obtain rfl := Option.some.inj (hHead.symm.trans h.head?_eq)
  exact absurd hc (by decide)

/-- The first word has to be followed by another one for a line to open something. -/
theorem not_opens_of_word {c : Char} {cs : List Char} (hNext : trimStart rest = c :: cs)
    (hc : isIdentifierChar c = false) (name : String) : ¬ Opens (.protobuf suppressed) line name := by
  rintro ⟨_, other, blanks, after, hOther, hText, hne, hBlanks, hName, _⟩
  have hMem : other ∈ Vocabulary.nestingWords := List.mem_of_find?_eq_some hOther
  have hEnds : EndsWord (blanks ++ (name.toList ++ after)) := endsWord_of_blanks hne hBlanks _
  rw [hText, takeIdentifier?_word (isIdentifier_words other (List.mem_append_left _ hMem)) hEnds] at hTake
  obtain ⟨_, rfl⟩ := Prod.mk.inj (Option.some.inj hTake)
  obtain ⟨d, ds, hCons, hd⟩ := exists_cons_of_isIdentifier hName
  rw [trimStart_word hBlanks hName, hCons] at hNext
  obtain rfl := (List.cons.inj hNext).1
  cases hd.symm.trans hc

end

end Line

namespace LineKind

open Text Line

variable {suppressed : List String}

theorem isEnumValue_eq_false {t word rest : List Char} (hTake : takeIdentifier? t = some (word, rest))
    (hHead : (trimStart rest).head? ≠ some '=') : isEnumValue t = false := by
  unfold isEnumValue
  rw [hTake]
  simp only
  split
  · rename_i hText
    rw [hText] at hHead
    exact absurd rfl hHead
  · rfl

/-- A line is no nesting line if its first word is none. -/
theorem afterNestingWord?_eq_none {t rest : List Char} {word : String} {words : List String}
    (hTake : takeIdentifier? t = some (word.toList, rest)) (hWord : word ∉ words)
    (hWords : ∀ other ∈ words, IsIdentifier other) : afterNestingWord? words t = none := by
  refine List.findSome?_eq_none_iff.mpr fun other hOther => Option.eq_none_iff_forall_ne_some.mpr fun after hAfter => ?_
  obtain ⟨rfl, hSpace⟩ := afterSpaced?_eq_some_iff.mp hAfter
  have hEnds : EndsWord after := by
    intro c hc
    rw [hSpace] at hc
    cases hc
    decide
  rw [takeIdentifier?_word (hWords other hOther) hEnds] at hTake
  obtain ⟨hSame, _⟩ := Prod.mk.inj (Option.some.inj hTake)
  exact hWord (String.toList_inj.mp hSame ▸ hOther)

/-- A line whose first word is no nesting word is plain. -/
theorem of_eq_plain_of_word {line word : String} {rest : List Char}
    (hTake : takeIdentifier? (trim line.toList) = some (word.toList, rest)) (hWord : word ∉ Vocabulary.nestingWords) :
    of (.protobuf suppressed) true line = .plain (reference? (.protobuf suppressed) (trim line.toList)) := by
  have hNesting : afterNestingWord? (Vocabulary.protobuf suppressed).nesting (trim line.toList) = none :=
    afterNestingWord?_eq_none hTake hWord fun other h => isIdentifier_words other (List.mem_append_left _ h)
  have hAnnounces : ¬ Announces (.protobuf suppressed) line := not_announces_of_word hTake
  have hId : commandId? (Vocabulary.protobuf suppressed).marker (trim line.toList) = none := by
    rwa [← Option.not_isSome_iff_eq_none, commandId?_isSome_iff]
  rw [of_true, hId, hNesting]
  exact if_neg (not_closes_of_word hTake)

/-! ## The type of a field -/

/-- Unless a line is an enum value, the class of its first word decides which type it names. -/
theorem reference?_of_word {v : Vocabulary} {t rest : List Char} {word : String}
    (hTake : takeIdentifier? t = some (word.toList, rest)) (hValue : isEnumValue t = false) : reference? v t =
      match v.classify word with
      | .custom => some word
      | .label => ((labeled? t).map String.ofList).filter fun name => v.classify name == .custom
      | .map => ((mapValue? t).map String.ofList).filter fun name => v.classify name == .custom
      | .nesting | .scalar | .directive | .suppressed => none := by
  cases hClass : v.classify word <;> simp [reference?, hTake, hValue, hClass]

theorem classOf_label : ∀ label ∈ Vocabulary.labelWords, Vocabulary.classOf suppressed label = .label := by
  simp only [Vocabulary.labelWords, List.forall_mem_cons]
  exact ⟨rfl, rfl, rfl, List.forall_mem_nil _⟩

/-- A word that is none of these starts no other kind of line. -/
theorem classOf_not_mem {word : String} (hNesting : word ∉ Vocabulary.nestingWords)
    (hLabel : word ∉ Vocabulary.labelWords) (hMap : word ≠ Vocabulary.mapWord) :
    Vocabulary.classOf suppressed word ∉ [WordClass.nesting, .label, .map] := by
  unfold Vocabulary.classOf
  rw [if_neg hNesting, if_neg hLabel, if_neg hMap]
  repeat' split
  all_goals decide

theorem labeled?_of_field {label type : String} {blanks rest : List Char} (hLabel : IsIdentifier label)
    (hne : blanks ≠ []) (hBlanks : Blanks blanks) (hType : IsIdentifier type) (hRest : EndsWord rest) :
    labeled? (label.toList ++ (blanks ++ (type.toList ++ rest))) = some type.toList := by
  obtain ⟨c, cs, rfl⟩ := List.exists_cons_of_ne_nil hne
  have hBlank : isBlank c = true := hBlanks c List.mem_cons_self
  unfold labeled?
  rw [takeIdentifier?_word hLabel (endsWord_of_blanks hne hBlanks _)]
  simp only [Option.bind_eq_bind, Option.bind_some, List.cons_append, List.head?_cons, Option.map_some, hBlank,
    Option.getD_some, if_true]
  rw [← List.cons_append, trimStart_word hBlanks hType, takeIdentifier?_word hType hRest]
  rfl

theorem mapValue?_of_field {key type : String} {b₁ b₂ b₃ b₄ : List Char} (hKey : IsIdentifier key)
    (hType : IsIdentifier type) (h₁ : Blanks b₁) (h₂ : Blanks b₂) (h₃ : Blanks b₃) (h₄ : Blanks b₄) (rest : List Char) :
    mapValue? (Vocabulary.mapWord.toList ++
      '<' :: (b₁ ++ (key.toList ++ (b₂ ++ ',' :: (b₃ ++ (type.toList ++ (b₄ ++ '>' :: rest))))))) =
        some type.toList := by
  have hComma : EndsWord (b₂ ++ ',' :: (b₃ ++ (type.toList ++ (b₄ ++ '>' :: rest)))) :=
    (endsWord_cons (by decide) _).append_of_blanks h₂
  have hClose : EndsWord (b₄ ++ '>' :: rest) := (endsWord_cons (by decide) _).append_of_blanks h₄
  have hMark : ∀ (c : Char) (cs : List Char), after? [c] (c :: cs) = some cs := fun c cs => by simp [after?]
  have hStart : ∀ cs, after? "map<".toList ('m' :: 'a' :: 'p' :: '<' :: cs) = some cs := fun cs => by
    rw [after?_eq_some_iff]
    rfl
  have hText : ∀ cs, Vocabulary.mapWord.toList ++ '<' :: cs = 'm' :: 'a' :: 'p' :: '<' :: cs := fun cs => rfl
  rw [hText, mapValue?]
  apply Option.or_eq_some_iff.mpr
  left
  unfold mapValueAtStart?
  simp only [Option.bind_eq_bind, hStart, Option.bind_some, trimStart_word h₁ hKey, takeIdentifier?_word hKey hComma,
    trimStart_mark h₂ (by decide : isBlank ',' = false), hMark, trimStart_word h₃ hType,
    takeIdentifier?_word hType hClose, trimStart_mark h₄ (by decide : isBlank '>' = false)]
  rfl

/-- Nesting words name no type, with a name behind them or without. -/
theorem reference?_eq_of_word {line word : String} {rest : List Char}
    (hTake : takeIdentifier? (trim line.toList) = some (word.toList, rest)) :
    Line.reference? (.protobuf suppressed) line = reference? (.protobuf suppressed) (trim line.toList) := by
  by_cases hWord : word ∈ Vocabulary.nestingWords
  · have hNone : reference? (.protobuf suppressed) (trim line.toList) = none := by
      cases hValue : isEnumValue (trim line.toList) with
      | true => exact reference?_of_isEnumValue hValue
      | false =>
        have hClass : (Vocabulary.protobuf suppressed).classify word = .nesting := if_pos hWord
        rw [reference?_of_word hTake hValue, hClass]
    rw [hNone]
    exact Option.eq_none_iff_forall_ne_some.mpr fun name h =>
      Option.some_ne_none name ((reference?_eq_some h).symm.trans hNone)
  · rw [Line.reference?, of_eq_plain_of_word hTake hWord]

/-- A field names its type, if that is one that counts. -/
theorem reference?_of_field {word type : String} {t : List Char} (h : IsField word type t) :
    reference? (.protobuf suppressed) t =
      if Vocabulary.classOf suppressed type = .custom then some type else none := by
  have hFilter : ∀ found : Option (List Char), found = some type.toList →
      ((found.map String.ofList).filter fun name => Vocabulary.classOf suppressed name == .custom) =
        if Vocabulary.classOf suppressed type = .custom then some type else none := by
    rintro _ rfl
    simp [Option.filter]
  have hWord := h.isIdentifier_word.1
  obtain ⟨rest, hTake, hHead⟩ := h.exists_takeIdentifier?
  rw [reference?_of_word hTake (isEnumValue_eq_false hTake hHead)]
  cases h with
  | single _ hNesting hLabel hMap =>
    have hClass : Vocabulary.classOf suppressed word ∉ [WordClass.nesting, .label, .map] :=
      classOf_not_mem hNesting hLabel hMap
    have hClassify : (Vocabulary.protobuf suppressed).classify word = Vocabulary.classOf suppressed word := rfl
    rw [hClassify]
    generalize Vocabulary.classOf suppressed word = wordClass at hClass ⊢
    cases wordClass <;> simp_all
  | labeled hLabel hne hBlanks hType hne' hMore _ =>
    have hClass : (Vocabulary.protobuf suppressed).classify word = .label := classOf_label word hLabel
    rw [hClass]
    exact hFilter _ (labeled?_of_field hWord hne hBlanks hType (endsWord_of_blanks hne' hMore _))
  | map hKey hType h₁ h₂ h₃ h₄ =>
    have hClass : (Vocabulary.protobuf suppressed).classify Vocabulary.mapWord = .map := rfl
    rw [hClass]
    exact hFilter _ (mapValue?_of_field hKey hType h₁ h₂ h₃ h₄ _)

end LineKind

namespace Scan

open Text Line

/-- A field inside a block. -/
theorem push_field (suppressed : List String) {s : Scan} {b : Block} (hOpen : s.current? = some b)
    {line word type : String} {front t : List Char} (hLine : line.toList = front ++ t) (hFront : Blanks front)
    (hField : IsField word type t) : (s.push (.protobuf suppressed) line).value =
      ({ s with
          lineNumber := s.lineNumber + 1
          current? := some { b with
            body := b.body ++ [line]
            references := b.references ++ if Vocabulary.classOf suppressed type = .custom then [type] else [] } },
        none) := by
  have hTrim : trim line.toList = Text.trimEnd t := by
    obtain ⟨rest, hTake, _⟩ := hField.exists_takeIdentifier?
    obtain ⟨hText, _⟩ := takeIdentifier?_eq_some_iff.mp hTake
    have hStart := trimStart_word hFront hField.isIdentifier_word.1 rest
    rw [trim, hLine, hText, hStart]
  have hEnd := hField.trimEnd
  rw [← hTrim] at hEnd
  obtain ⟨rest, hTake, _⟩ := hEnd.exists_takeIdentifier?
  have hKind : LineKind.of (.protobuf suppressed) true line = _ :=
    LineKind.of_eq_plain_of_word hTake hEnd.isIdentifier_word.2
  rw [LineKind.reference?_of_field hEnd] at hKind
  rw [push, hOpen, Option.isSome_some, hKind, value_step]
  simp only [change, hOpen, Option.map_some, Block.append]
  split <;> rfl

/-- A map inside a block: the key is no reference, and neither is what a remark behind the field says. -/
theorem bag_of_items : ∃ t, "  map<Key,\u3000Item > items = 1; // map<Old, New>".toList = [' ', ' '] ++ t ∧
    IsField Vocabulary.mapWord "Item" t ∧
    ((start.next (.protobuf []) "message Bag \x7b").push (.protobuf [])
      "  map<Key,\u3000Item > items = 1; // map<Old, New>").value =
        (⟨2, 1, 0, [], [], some ⟨"Bag", 0, ["message Bag \x7b", "  map<Key,\u3000Item > items = 1; // map<Old, New>"],
          ["Item"], []⟩⟩, none) := by
  have hKey : IsIdentifier "Key" := ⟨by decide, List.all_eq_true.mp (by decide)⟩
  have hType : IsIdentifier "Item" := ⟨by decide, List.all_eq_true.mp (by decide)⟩
  have hNone : Blanks [] := List.forall_mem_nil _
  have hWide : Blanks ['\u3000'] := List.forall_mem_singleton.mpr (by decide)
  have hSpace : Blanks [' '] := List.forall_mem_singleton.mpr (by decide)
  have hFront : Blanks [' ', ' '] := List.all_eq_true.mp (by decide)
  have hField := @IsField.map "Key" "Item" [] [] ['\u3000'] [' '] " items = 1; // map<Old, New>".toList hKey hType
    hNone hNone hWide hSpace
  have hLine : "  map<Key,\u3000Item > items = 1; // map<Old, New>".toList = [' ', ' '] ++
      (Vocabulary.mapWord.toList ++ '<' :: ([] ++ ("Key".toList ++ ([] ++ ',' :: (['\u3000'] ++ ("Item".toList ++
        ([' '] ++ '>' :: " items = 1; // map<Old, New>".toList))))))) := by decide +kernel
  have hOpen : (start.next (.protobuf []) "message Bag \x7b").current? =
      some ⟨"Bag", 0, ["message Bag \x7b"], [], []⟩ := rfl
  refine ⟨_, hLine, hField, ?_⟩
  rw [push_field [] hOpen hLine hFront hField]
  rfl

end Scan

end Unbundle
