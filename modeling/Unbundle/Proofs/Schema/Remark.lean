/-
  Unbundle.Proofs.Schema.Remark — what a comment behind a line changes.

  A remark is a comment, with or without blanks in front of it. It holds no `<`, since a map type is looked for
  everywhere in a line. Where reading stops, it stops at a remark: words, numbers and marks end in front of it, and
  what is behind them is the rest of the line with the remark.

  (1) `IsRemark.takeWhile_append`, `IsRemark.isPrefix_append_iff`, `IsRemark.exists_trim_append`. Runs of characters,
  words and blanks in front of a remark.

  (2) `takeIdentifier?_append_remark`, `after?_append_remark`, `readCommandId_append_remark`. The readers of a line.

  (3) `reference?_append_remark`. The type that a line names stays.

  (4) `kind_append_remark`. So does the kind of the line, with two exceptions: a closing brace is none any more, and
  a bare marker becomes an announcement, for the blank that it lacked. A bare nesting word becomes a nesting word
  without a name, which is as good as nothing.
-/

import Unbundle.Proofs.Schema.Standard

namespace Unbundle

namespace Text

/-! ## (1) Texts in front of a remark -/

/-- Blanks, and behind them a comment that holds no `<`. -/
def IsRemark (cs : List Char) : Prop :=
  ∃ blanks inner, cs = blanks ++ '/' :: '*' :: (inner ++ ['*', '/']) ∧ (∀ c ∈ blanks, isBlank c = true) ∧ '<' ∉ inner

/-- Neither a slash nor a blank is of this kind, so a run of such characters stops at a remark. -/
def Stops (p : Char → Bool) : Prop := p '/' = false ∧ ∀ c, isBlank c = true → p c = false

namespace IsRemark

variable {e : List Char} (h : IsRemark e)
include h

theorem exists_cons : ∃ c cs, e = c :: cs ∧ (isBlank c = true ∨ c = '/') := by
  obtain ⟨blanks, inner, rfl, hBlanks, _⟩ := h
  cases blanks with
  | nil => exact ⟨'/', _, rfl, .inr rfl⟩
  | cons c blanks => exact ⟨c, _, rfl, .inl (hBlanks c List.mem_cons_self)⟩

theorem exists_cons_of_stops {p : Char → Bool} (hp : Stops p) : ∃ c cs, e = c :: cs ∧ p c = false := by
  obtain ⟨c, cs, hCons, hc⟩ := h.exists_cons
  rcases hc with hBlank | rfl
  · exact ⟨c, cs, hCons, hp.2 c hBlank⟩
  · exact ⟨_, cs, hCons, hp.1⟩

theorem slash_mem : '/' ∈ e := by
  obtain ⟨blanks, inner, rfl, _⟩ := h
  exact List.mem_append_right blanks List.mem_cons_self

theorem head?_ne {c : Char} (hc : isBlank c = false) (hSlash : c ≠ '/') : e.head? ≠ some c := by
  obtain ⟨d, ds, rfl, hd⟩ := h.exists_cons
  intro hHead
  obtain rfl := Option.some.inj hHead
  rcases hd with hd | hd
  · cases hc.symm.trans hd
  · exact hSlash hd

theorem append_of_blank {bs : List Char} (hb : ∀ c ∈ bs, isBlank c = true) : IsRemark (bs ++ e) := by
  obtain ⟨blanks, inner, rfl, hBlanks, hInner⟩ := h
  refine ⟨bs ++ blanks, inner, (List.append_assoc ..).symm, fun c hc => ?_, hInner⟩
  exact (List.mem_append.mp hc).elim (hb c) (hBlanks c)

theorem trimStart : IsRemark (trimStart e) := by
  obtain ⟨blanks, inner, rfl, hBlanks, hInner⟩ := h
  rw [trimStart_append_of_blank hBlanks, trimStart_cons (by decide)]
  exact ⟨[], inner, rfl, fun c hc => absurd hc List.not_mem_nil, hInner⟩

theorem not_mem : '<' ∉ e := by
  obtain ⟨blanks, inner, rfl, hBlanks, hInner⟩ := h
  intro hMem
  rcases List.mem_append.mp hMem with hMem | hMem
  · exact absurd (hBlanks _ hMem) (by decide)
  · simp [hInner] at hMem

theorem takeWhile_append {p : Char → Bool} (hp : Stops p) (cs : List Char) :
    (cs ++ e).takeWhile p = cs.takeWhile p := by
  obtain ⟨c, rest, rfl, hStop⟩ := h.exists_cons_of_stops hp
  rw [List.takeWhile_append, List.takeWhile_cons_of_neg (by simp [hStop]), List.append_nil]
  split
  · rename_i hLength
    exact ((List.takeWhile_prefix p).eq_of_length hLength).symm
  · rfl

theorem dropWhile_append {p : Char → Bool} (hp : Stops p) (cs : List Char) :
    (cs ++ e).dropWhile p = cs.dropWhile p ++ e := by
  obtain ⟨c, rest, rfl, hStop⟩ := h.exists_cons_of_stops hp
  rw [List.dropWhile_append]
  split
  · rename_i hAll
    rw [List.isEmpty_iff.mp hAll, List.dropWhile_cons_of_neg (by simp [hStop]), List.nil_append]
  · rfl

/-- Blanks in front of a remark belong to it. -/
theorem exists_trimStart_append (cs : List Char) :
    ∃ e', IsRemark e' ∧ Text.trimStart (cs ++ e) = Text.trimStart cs ++ e' := by
  unfold Text.trimStart
  rw [List.dropWhile_append]
  split
  · rename_i hAll
    exact ⟨_, h.trimStart, by rw [List.isEmpty_iff.mp hAll]; rfl⟩
  · exact ⟨e, h, rfl⟩

/-- Blanks at the ends do not get in the way of a remark. -/
theorem exists_trim_append (cs : List Char) : ∃ e', IsRemark e' ∧ trim (cs ++ e) = trim cs ++ e' := by
  obtain ⟨e', he, hTrim⟩ := h.exists_trimStart_append cs
  obtain ⟨bs, hBlank, hCut⟩ := exists_trimEnd_append (Text.trimStart cs)
  refine ⟨bs ++ e', he.append_of_blank hBlank, ?_⟩
  have hLast : ∃ front, Text.trimStart cs ++ e' = front ++ ['/'] := by
    obtain ⟨blanks, inner, rfl, _, _⟩ := he
    exact ⟨Text.trimStart cs ++ (blanks ++ '/' :: '*' :: (inner ++ ['*'])), by simp⟩
  obtain ⟨front, hFront⟩ := hLast
  calc trim (cs ++ e)
      = trimEnd (front ++ ['/']) := by rw [trim, hTrim, hFront]
    _ = Text.trimStart cs ++ e' := by rw [trimEnd_append_cons (by decide), hFront]; rfl
    _ = trim cs ++ (bs ++ e') := by rw [← List.append_assoc, trim, ← hCut]

end IsRemark

/-! ### Marks and words -/

/-- The text starts as a remark may start. -/
def mayStartRemark (cs : List Char) : Bool :=
  match Text.trimStart cs with
  | [] | ['/'] => true
  | c :: d :: _ => c == '/' && d == '*'
  | _ => false

/-- No part at the end of the word starts as a remark may start. -/
def Parts (word : List Char) : Prop := ∀ n < word.length, mayStartRemark (word.drop n) = false

instance (word : List Char) : Decidable (Parts word) :=
  inferInstanceAs (Decidable (∀ n < word.length, mayStartRemark (word.drop n) = false))

theorem IsRemark.mayStartRemark_of_isPrefix {e cs : List Char} (h : IsRemark e) (hPrefix : cs <+: e) :
    mayStartRemark cs = true := by
  obtain ⟨blanks, inner, rfl, hBlanks, _⟩ := h
  unfold mayStartRemark
  rcases List.prefix_or_prefix_of_prefix hPrefix (List.prefix_append blanks _) with hIn | ⟨after, rfl⟩
  · have hNone : Text.trimStart cs = [] := by
      have := trimStart_append_of_blank (fun c hc => hBlanks c (hIn.subset hc)) []
      rwa [List.append_nil] at this
    rw [hNone]
  · rw [trimStart_append_of_blank hBlanks]
    rw [List.prefix_append_right_inj] at hPrefix
    match after, hPrefix with
    | [], _ => rfl
    | [c], hPrefix =>
      obtain ⟨rfl, _⟩ := List.cons_prefix_cons.mp hPrefix
      rfl
    | c :: d :: after, hPrefix =>
      obtain ⟨rfl, hRest⟩ := List.cons_prefix_cons.mp hPrefix
      obtain ⟨rfl, _⟩ := List.cons_prefix_cons.mp hRest
      rw [trimStart_cons (by decide)]
      rfl

/-- A word in front of a remark ends there. -/
theorem IsRemark.isPrefix_append_iff {e word : List Char} (h : IsRemark e) (hw : Parts word) (cs : List Char) :
    word <+: cs ++ e ↔ word <+: cs := by
  constructor
  · intro hPrefix
    rcases List.prefix_or_prefix_of_prefix hPrefix (List.prefix_append cs e) with hIn | ⟨tail, rfl⟩
    · exact hIn
    · rw [List.prefix_append_right_inj] at hPrefix
      by_cases hTail : tail = []
      · exact ⟨[], by rw [hTail, List.append_nil, List.append_nil]⟩
      · have hStart := h.mayStartRemark_of_isPrefix hPrefix
        have hNot := hw cs.length (by simp [List.length_pos_iff.mpr hTail])
        rw [List.drop_left] at hNot
        cases hNot.symm.trans hStart
  · intro hPrefix
    exact hPrefix.trans (List.prefix_append cs e)

/-! ### Kinds of characters -/

theorem stops_isIdentifierChar : Stops isIdentifierChar := by
  refine ⟨by decide, fun c hc => Bool.eq_false_iff.mpr fun h => ?_⟩
  cases (isBlank_of_isIdentifierChar h).symm.trans hc

theorem exists_range_of_inRanges {n : Nat} {ranges : List (Nat × Nat)} (h : inRanges n ranges = true) :
    ∃ r ∈ ranges, r.1 ≤ n ∧ n ≤ r.2 := by
  induction ranges with
  | nil => cases h
  | cons r ranges ih =>
    unfold inRanges at h
    split at h
    · cases h
    · rename_i hFirst
      rcases Bool.or_eq_true_iff.mp h with hLast | hRest
      · exact ⟨r, List.mem_cons_self, Nat.le_of_not_lt hFirst, of_decide_eq_true hLast⟩
      · obtain ⟨r', hMem, hIn⟩ := ih hRest
        exact ⟨r', List.mem_cons_of_mem r hMem, hIn⟩

theorem stops_asciiDigit : Stops Char.isDigit := by
  refine ⟨by decide, fun c hc => ?_⟩
  have hName := stops_isIdentifierChar.2 c hc
  simp only [isIdentifierChar, Char.isAlphanum, Bool.or_eq_false_iff] at hName
  exact hName.1.2

/-- No blank is a digit, of whatever script. -/
theorem stops_isDigit : Stops isDigit := by
  refine ⟨by decide, fun c hc => ?_⟩
  have hRanges : ∀ r ∈ blankRanges, ∀ n ∈ List.range' r.1 (r.2 + 1 - r.1), inRanges n digitRanges = false := by decide
  obtain ⟨r, hr, hFirst, hLast⟩ := exists_range_of_inRanges hc
  have hDigit := hRanges r hr c.toNat (List.mem_range'_1.mpr (by omega))
  rw [isDigit, hDigit, stops_asciiDigit.2 c hc]
  rfl

end Text

namespace LineKind

open Text

variable {e : List Char} (h : IsRemark e)

/-! ## (2) The readers of a line -/

theorem after?_eq_none_iff {start cs : List Char} : after? start cs = none ↔ ¬ start <+: cs := by
  rw [Option.eq_none_iff_forall_ne_some]
  constructor
  · rintro hNone ⟨rest, rfl⟩
    exact hNone rest (after?_eq_some_iff.mpr rfl)
  · intro hNot rest hSome
    exact hNot ⟨rest, (after?_eq_some_iff.mp hSome).symm⟩

include h

theorem takeIdentifier?_append_remark (cs : List Char) :
    takeIdentifier? (cs ++ e) = (takeIdentifier? cs).map fun p => (p.1, p.2 ++ e) := by
  unfold takeIdentifier?
  rw [h.takeWhile_append stops_isIdentifierChar, h.dropWhile_append stops_isIdentifierChar]
  split <;> rfl

theorem after?_append_remark {word : List Char} (hw : Parts word) (cs : List Char) :
    after? word (cs ++ e) = (after? word cs).map (· ++ e) := by
  rcases hAfter : after? word cs with _ | rest
  · rw [Option.map_none, after?_eq_none_iff, h.isPrefix_append_iff hw]
    exact after?_eq_none_iff.mp hAfter
  · rw [Option.map_some, after?_eq_some_iff, after?_eq_some_iff.mp hAfter, List.append_assoc]

/-- The blank that a word lacks may come with the remark; it lacks none otherwise. -/
theorem afterSpaced?_append_remark {word : List Char} (hw : Parts word) {cs : List Char} (hne : cs ≠ word) :
    afterSpaced? word (cs ++ e) = (afterSpaced? word cs).map (· ++ e) := by
  unfold afterSpaced?
  rw [after?_append_remark h hw]
  rcases hAfter : after? word cs with _ | ⟨_ | ⟨c, rest⟩⟩
  · rfl
  · exact absurd ((after?_eq_some_iff.mp hAfter).trans (List.append_nil word)) hne
  · by_cases hc : c = ' '
    · rw [hc]
      rfl
    · simp [hc]

theorem readCommandId_append_remark (cs : List Char) : readCommandId (cs ++ e) = readCommandId cs := by
  obtain ⟨e', he, hTrim⟩ := h.exists_trimStart_append cs
  unfold readCommandId
  rw [hTrim, he.takeWhile_append stops_asciiDigit]

theorem commandId?_append_remark {marker : String} (hw : Parts marker.toList) {t : List Char}
    (hne : t ≠ marker.toList) : commandId? marker (t ++ e) = commandId? marker t := by
  unfold commandId?
  rw [afterSpaced?_append_remark h hw hne, Option.map_map]
  exact congrArg (Option.map · _) (funext (readCommandId_append_remark h))

/-- An identifier behind blanks. -/
theorem exists_takeIdentifier?_trimStart (cs : List Char) : ∃ e', IsRemark e' ∧
    takeIdentifier? (trimStart (cs ++ e)) = (takeIdentifier? (trimStart cs)).map fun p => (p.1, p.2 ++ e') := by
  obtain ⟨e', he, hTrim⟩ := h.exists_trimStart_append cs
  exact ⟨e', he, by rw [hTrim, takeIdentifier?_append_remark he]⟩

/-- A mark behind blanks. -/
theorem exists_after?_trimStart {word : List Char} (hw : Parts word) (cs : List Char) : ∃ e', IsRemark e' ∧
    after? word (trimStart (cs ++ e)) = (after? word (trimStart cs)).map (· ++ e') := by
  obtain ⟨e', he, hTrim⟩ := h.exists_trimStart_append cs
  exact ⟨e', he, by rw [hTrim, after?_append_remark he hw]⟩

/-! ## (3) The type that a line names -/

theorem head?_trimStart_append_remark {c : Char} (hc : isBlank c = false) (hSlash : c ≠ '/') (cs : List Char) :
    ((trimStart (cs ++ e)).head? == some c) = ((trimStart cs).head? == some c) := by
  obtain ⟨e', he, hTrim⟩ := h.exists_trimStart_append cs
  rw [hTrim]
  rcases trimStart cs with _ | ⟨d, ds⟩
  · have hNot : e'.head? ≠ some c := he.head?_ne hc hSlash
    simpa using hNot
  · rfl

theorem isEnumValue_append_remark (t : List Char) : isEnumValue (t ++ e) = isEnumValue t := by
  unfold isEnumValue
  rw [takeIdentifier?_append_remark h]
  rcases takeIdentifier? t with _ | ⟨word, rest⟩
  · rfl
  obtain ⟨e₁, he₁, hTrim₁⟩ := h.exists_trimStart_append rest
  simp only [Option.map_some, hTrim₁]
  rcases trimStart rest with _ | ⟨c, rest⟩
  · have hNot : e₁.head? ≠ some '=' := he₁.head?_ne (by decide) (by decide)
    obtain ⟨c, cs, rfl, _⟩ := he₁.exists_cons
    have hc : c ≠ '=' := fun hEq => hNot (congrArg some hEq)
    simp [hc]
  · by_cases hc : c = '='
    · subst hc
      obtain ⟨e₂, he₂, hTrim₂⟩ := he₁.exists_trimStart_append rest
      simp only [List.cons_append, hTrim₂, he₂.takeWhile_append stops_isDigit, he₂.dropWhile_append stops_isDigit,
        head?_trimStart_append_remark he₂ (by decide : isBlank ';' = false) (by decide)]
    · simp [hc]

theorem labeled?_append_remark (t : List Char) : labeled? (t ++ e) = labeled? t := by
  unfold labeled?
  rw [takeIdentifier?_append_remark h]
  rcases takeIdentifier? t with _ | ⟨word, rest⟩
  · rfl
  obtain ⟨e₁, _, hTake⟩ := exists_takeIdentifier?_trimStart h rest
  simp only [Option.map_some, Option.bind_eq_bind, Option.bind_some, hTake]
  rcases rest with _ | ⟨c, rest⟩
  · -- nothing stands behind the label, so no word does
    have hNone : takeIdentifier? [] = none := rfl
    simp [hNone]
  · rcases takeIdentifier? (trimStart (c :: rest)) with _ | ⟨name, _⟩
    · rfl
    · rfl

theorem mapValueAtStart?_append_remark (t : List Char) : mapValueAtStart? (t ++ e) = mapValueAtStart? t := by
  unfold mapValueAtStart?
  rw [after?_append_remark h (by decide)]
  rcases after? "map<".toList t with _ | rest
  · rfl
  obtain ⟨e₁, he₁, hKey⟩ := exists_takeIdentifier?_trimStart h rest
  simp only [Option.map_some, Option.bind_eq_bind, Option.bind_some, hKey]
  rcases takeIdentifier? (trimStart rest) with _ | ⟨key, rest⟩
  · rfl
  obtain ⟨e₂, he₂, hComma⟩ := exists_after?_trimStart he₁ (by decide : Parts [',']) rest
  simp only [Option.map_some, Option.bind_some, hComma]
  rcases after? [','] (trimStart rest) with _ | rest
  · rfl
  obtain ⟨e₃, he₃, hValue⟩ := exists_takeIdentifier?_trimStart he₂ rest
  simp only [Option.map_some, Option.bind_some, hValue]
  rcases takeIdentifier? (trimStart rest) with _ | ⟨value, rest⟩
  · rfl
  obtain ⟨e₄, _, hClose⟩ := exists_after?_trimStart he₃ (by decide : Parts ['>']) rest
  simp only [Option.map_some, Option.bind_some, hClose]
  rcases after? ['>'] (trimStart rest) with _ | rest
  · rfl
  · rfl

omit h in
/-- Without `<` there is no map type. -/
theorem mapValue?_of_not_mem {cs : List Char} (hcs : '<' ∉ cs) : mapValue? cs = none := by
  induction cs with
  | nil => rfl
  | cons c cs ih =>
    have hStart : after? "map<".toList (c :: cs) = none := by
      rw [after?_eq_none_iff]
      exact fun hPrefix => hcs (hPrefix.subset (by decide))
    rw [mapValue?, mapValueAtStart?, hStart, ih fun hMem => hcs (List.mem_cons_of_mem c hMem)]
    rfl

theorem mapValue?_append_remark (t : List Char) : mapValue? (t ++ e) = mapValue? t := by
  induction t with
  | nil => rw [List.nil_append, mapValue?_of_not_mem h.not_mem]; rfl
  | cons c t ih => rw [List.cons_append, mapValue?, mapValue?, ih, ← List.cons_append, mapValueAtStart?_append_remark h]

/-- A remark names no type, and leaves the line the type it names. -/
theorem reference?_append_remark (v : Vocabulary) (t : List Char) : reference? v (t ++ e) = reference? v t := by
  unfold reference?
  rw [takeIdentifier?_append_remark h, isEnumValue_append_remark h, labeled?_append_remark h,
    mapValue?_append_remark h]
  rcases takeIdentifier? t with _ | ⟨word, rest⟩
  · rfl
  · rfl

/-! ## (4) The kind of a line -/

/-- The kind of a line, with nesting words that have no name among the lines that name no type: a scan does the same
    with both. -/
def merged : LineKind → LineKind
  | nameless => plain none
  | kind => kind

omit h in
theorem parts_words : ∀ word ∈ Vocabulary.headerWords ++ Vocabulary.nestingWords, Parts word.toList := by decide

omit h in
theorem parts_marker : Parts Vocabulary.defaultMarker.toList := by decide

theorem isHeader_append_remark_iff (suppressed : List String) {line line' : String}
    (hTrim : trim line'.toList = trim line.toList ++ e) :
    Line.IsHeader (.protobuf suppressed) line' ↔ Line.IsHeader (.protobuf suppressed) line := by
  unfold Line.IsHeader
  rw [hTrim]
  refine exists_congr fun start => and_congr_right fun hStart => ?_
  exact h.isPrefix_append_iff (parts_words start (List.mem_append_left _ hStart)) _

theorem afterNestingWord?_append_remark {words : List String} {t : List Char}
    (hWords : ∀ word ∈ words, Parts word.toList ∧ t ≠ word.toList) :
    afterNestingWord? words (t ++ e) = (afterNestingWord? words t).map (· ++ e) := by
  unfold afterNestingWord?
  induction words with
  | nil => rfl
  | cons word words ih =>
    obtain ⟨⟨hParts, hne⟩, hWords⟩ := List.forall_mem_cons.mp hWords
    rw [List.findSome?_cons, List.findSome?_cons, afterSpaced?_append_remark h hParts hne]
    rcases afterSpaced? word.toList t with _ | rest
    · exact ih hWords
    · rfl

/-- A nesting word with nothing but a remark behind it has no name. -/
theorem takeIdentifier?_of_bare {word : String} (hWord : word ∈ Vocabulary.nestingWords) {rest : List Char}
    (hAfter : afterNestingWord? Vocabulary.nestingWords (word.toList ++ e) = some rest) :
    takeIdentifier? (trimStart rest) = none := by
  have hWords : ∀ word ∈ Vocabulary.nestingWords, ∀ word' ∈ Vocabulary.nestingWords,
      word'.toList <+: word.toList → word' = word := by decide
  obtain ⟨word', hMem, hSpaced⟩ := List.exists_of_findSome?_eq_some hAfter
  obtain ⟨hText, _⟩ := afterSpaced?_eq_some_iff.mp hSpaced
  have hPrefix : word'.toList <+: word.toList :=
    (h.isPrefix_append_iff (parts_words word' (List.mem_append_right _ hMem)) _).mp ⟨rest, hText.symm⟩
  obtain rfl := hWords word hWord word' hMem hPrefix
  obtain rfl := List.append_cancel_left hText
  exact takeIdentifier?_append_remark h.trimStart []

omit h in
theorem reference?_of_bare (suppressed : List String) :
    ∀ word ∈ Vocabulary.nestingWords, afterNestingWord? Vocabulary.nestingWords word.toList = none ∧
      reference? (.protobuf suppressed) word.toList = none := by
  simp only [Vocabulary.nestingWords, List.forall_mem_cons]
  exact ⟨⟨by decide, rfl⟩, ⟨by decide, rfl⟩, ⟨by decide, rfl⟩, List.forall_mem_nil _⟩

/-- A remark behind a line leaves its kind, unless the line is a closing brace or a bare marker. -/
theorem kind_append_remark {suppressed : List String} {line line' : String}
    (hTrim : trim line'.toList = trim line.toList ++ e) (hMarker : trim line.toList ≠ Vocabulary.defaultMarker.toList)
    (hCloses : ¬ Line.Closes line) (inBlock : Bool) :
    (of (.protobuf suppressed) inBlock line').merged = (of (.protobuf suppressed) inBlock line).merged := by
  have hHeader := isHeader_append_remark_iff h suppressed hTrim
  by_cases hKind : inBlock = false ∧ Line.IsHeader (.protobuf suppressed) line
  · rw [of_eq_header_iff.mpr hKind, of_eq_header_iff.mpr ⟨hKind.1, hHeader.mpr hKind.2⟩]
  have hBrace : trim line.toList ++ e ≠ ['\x7d'] := fun hEq =>
    absurd (List.mem_singleton.mp (hEq ▸ List.mem_append_right _ h.slash_mem)) (by decide)
  have hNone : trim line.toList ≠ ['\x7d'] := hCloses
  have hId : commandId? (Vocabulary.protobuf suppressed).marker (trim line.toList ++ e) =
      commandId? (Vocabulary.protobuf suppressed).marker (trim line.toList) :=
    commandId?_append_remark h parts_marker hMarker
  have hWords : (Vocabulary.protobuf suppressed).nesting = Vocabulary.nestingWords := rfl
  rw [of_behind hKind, of_behind (by rwa [hHeader]), of_true, of_true, hTrim, hId, hWords, if_neg hBrace, if_neg hNone,
    reference?_append_remark h]
  rcases commandId? (Vocabulary.protobuf suppressed).marker (trim line.toList) with _ | id
  · by_cases hBare : ∃ word ∈ Vocabulary.nestingWords, trim line.toList = word.toList
    · obtain ⟨word, hWord, hText⟩ := hBare
      obtain ⟨hAlone, hNamed⟩ := reference?_of_bare suppressed word hWord
      rw [hText, hNamed]
      simp only [hAlone]
      rcases hAfter : afterNestingWord? Vocabulary.nestingWords (word.toList ++ e) with _ | rest
      · rfl
      · simp only [takeIdentifier?_of_bare h hWord hAfter]
        rfl
    · have hOther : ∀ word ∈ Vocabulary.nestingWords, Parts word.toList ∧ trim line.toList ≠ word.toList :=
        fun word hWord => ⟨parts_words word (List.mem_append_right _ hWord), fun hEq => hBare ⟨word, hWord, hEq⟩⟩
      rw [afterNestingWord?_append_remark h hOther]
      rcases afterNestingWord? Vocabulary.nestingWords (trim line.toList) with _ | rest
      · rfl
      · obtain ⟨e', _, hName⟩ := exists_takeIdentifier?_trimStart h rest
        simp only [Option.map_some, hName]
        rcases takeIdentifier? (trimStart rest) with _ | ⟨name, _⟩
        · rfl
        · rfl
  · rfl

end LineKind

end Unbundle
