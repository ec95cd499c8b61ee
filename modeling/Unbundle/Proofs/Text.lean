/-
  Unbundle.Proofs.Text — laws of trimming, of identifiers, and of texts cut into lines.

  - `takeIdentifier?_eq_some_iff`: the identifier taken is the longest one at the start.
  - `trim_append_of_blank`, `trim_concat_of_blank`: blanks at the ends of a text do not count.
  - `takeIdentifier?_word`, `trimStart_word`, `trimStart_mark`: a word, and what comes next behind blanks.
  - `cutFeeds_append`: what stands in front of the first line feed is the first line, of texts as of bytes.
  - `lines_unlines`: lines without line feeds that are written one after the other are read back, each without
    the carriage return it may end in.
  - `lines_unlines_append`: lines with line feeds in them may be read back as more lines, but one after the other.
  - `isJoined_cutAt`: a text cut at a separator is joined of its parts.
-/

import Unbundle.Text.Blank
import Unbundle.Text.Identifier
import Unbundle.Text.Lines

namespace Unbundle.Text

/-! ## Blanks at the ends -/

theorem trimEnd_isPrefix (cs : List Char) : trimEnd cs <+: cs := by
  have h : cs.reverse.dropWhile isBlank <:+ cs.reverse := List.dropWhile_suffix isBlank
  simpa [trimEnd] using List.reverse_prefix.mpr h

theorem trimStart_append_of_blank {bs : List Char} (h : ∀ c ∈ bs, isBlank c = true) (cs : List Char) :
    trimStart (bs ++ cs) = trimStart cs :=
  List.dropWhile_append_of_pos h

theorem trimEnd_eq_nil_of_blank {bs : List Char} (h : ∀ c ∈ bs, isBlank c = true) : trimEnd bs = [] := by
  have hDrop := trimStart_append_of_blank (fun c hc => h c (List.mem_reverse.mp hc)) []
  rw [List.append_nil] at hDrop
  rw [trimEnd, ← trimStart, hDrop]
  rfl

theorem trimStart_cons {c : Char} (h : isBlank c = false) (cs : List Char) : trimStart (c :: cs) = c :: cs :=
  List.dropWhile_cons_of_neg (by simp [h])

/-- What stands in front of a character that is not blank stays. -/
theorem trimEnd_append_cons {c : Char} (h : isBlank c = false) (cs ds : List Char) :
    trimEnd (cs ++ c :: ds) = cs ++ c :: trimEnd ds := by
  unfold trimEnd
  rw [List.reverse_append, List.reverse_cons, List.append_assoc, List.dropWhile_append]
  split
  · rename_i hd
    rw [List.isEmpty_iff.mp hd]
    simp [h]
  · simp

theorem trim_append_of_blank {bs : List Char} (h : ∀ c ∈ bs, isBlank c = true) (cs : List Char) :
    trim (bs ++ cs) = trim cs := by
  rw [trim, trimStart_append_of_blank h, trim]

theorem trimEnd_concat_of_blank {c : Char} (h : isBlank c = true) (cs : List Char) :
    trimEnd (cs ++ [c]) = trimEnd cs := by
  rw [trimEnd, List.reverse_append, List.reverse_singleton, List.singleton_append, List.dropWhile_cons_of_pos h,
    ← trimEnd]

theorem trim_concat_of_blank {c : Char} (h : isBlank c = true) (cs : List Char) : trim (cs ++ [c]) = trim cs := by
  unfold trim trimStart
  rw [List.dropWhile_append]
  split
  · rename_i hEmpty
    rw [List.isEmpty_iff.mp hEmpty, List.dropWhile_cons_of_pos h]
    rfl
  · exact trimEnd_concat_of_blank h _

theorem trim_cons_concat {c d : Char} (hc : isBlank c = false) (hd : isBlank d = false) (cs : List Char) :
    trim (c :: (cs ++ [d])) = c :: (cs ++ [d]) := by
  rw [trim, trimStart_cons hc, ← List.cons_append, trimEnd_append_cons hd]
  rfl

/-- A text is cut behind its last character that is not blank. -/
theorem exists_trimEnd_append (cs : List Char) : ∃ bs, (∀ c ∈ bs, isBlank c = true) ∧ cs = trimEnd cs ++ bs := by
  refine ⟨(cs.reverse.takeWhile isBlank).reverse, fun c hc => ?_, ?_⟩
  · exact List.all_eq_true.mp List.all_takeWhile c (List.mem_reverse.mp hc)
  · rw [trimEnd, ← List.reverse_append, List.takeWhile_append_dropWhile, List.reverse_reverse]

/-- What is not blank stays. -/
theorem mem_trim_of_mem {c : Char} {cs : List Char} (h : c ∈ cs) (hc : isBlank c = false) : c ∈ trim cs := by
  have hStart : c ∈ trimStart cs := by
    rw [← List.takeWhile_append_dropWhile (p := isBlank) (l := cs)] at h
    refine (List.mem_append.mp h).resolve_left fun hBlank => ?_
    cases hc.symm.trans (List.all_eq_true.mp List.all_takeWhile c hBlank)
  obtain ⟨bs, hBlank, hCut⟩ := exists_trimEnd_append (trimStart cs)
  rw [hCut] at hStart
  refine (List.mem_append.mp hStart).resolve_right fun hMem => ?_
  cases hc.symm.trans (hBlank c hMem)

/-! ## Identifiers -/

theorem isBlank_eq_false {c : Char} (h : 0x21 ≤ c.toNat) (h' : c.toNat ≤ 0x84) : isBlank c = false := by
  unfold isBlank blankRanges
  have h1 : ¬ c.toNat ≤ 0x0D := by omega
  have h2 : ¬ c.toNat ≤ 0x20 := by omega
  have h3 : c.toNat < 0x85 := by omega
  simp [inRanges, h1, h2, h3]

theorem toNat_of_isIdentifierChar {c : Char} (h : isIdentifierChar c = true) : 0x30 ≤ c.toNat ∧ c.toNat ≤ 0x7A := by
  change (((decide (c.val ≥ 'A'.val ∧ c.val ≤ 'Z'.val) || (c.val ≥ 'a'.val && c.val ≤ 'z'.val)) ||
    (c.val ≥ '0'.val && c.val ≤ '9'.val)) || c == '_') = true at h
  simp only [Bool.or_eq_true, Bool.and_eq_true, decide_eq_true_eq, beq_iff_eq, UInt32.le_iff_toNat_le, ge_iff_le] at h
  have e : c.toNat = c.val.toNat := rfl
  have eZ : 'Z'.val.toNat = 90 := rfl
  rcases h with ((⟨h, h'⟩ | ⟨h, h'⟩) | ⟨h, h'⟩) | rfl
  · have : 'A'.val.toNat = 65 := rfl
    omega
  · have : 'a'.val.toNat = 97 := rfl
    have : 'z'.val.toNat = 122 := rfl
    omega
  · have : '0'.val.toNat = 48 := rfl
    have : '9'.val.toNat = 57 := rfl
    omega
  · decide

theorem isBlank_of_isIdentifierChar {c : Char} (h : isIdentifierChar c = true) : isBlank c = false := by
  obtain ⟨h1, h2⟩ := toNat_of_isIdentifierChar h
  exact isBlank_eq_false (by omega) (by omega)

theorem feed_not_mem_of_isIdentifier {s : String} (h : IsIdentifier s) : '\n' ∉ s.toList :=
  fun hMem => absurd (h.2 _ hMem) (by decide)

theorem takeIdentifier?_append {name rest : List Char} (hne : name ≠ [])
    (hname : ∀ c ∈ name, isIdentifierChar c = true) (hrest : ∀ c, rest.head? = some c → isIdentifierChar c = false) :
    takeIdentifier? (name ++ rest) = some (name, rest) := by
  have htake : rest.takeWhile isIdentifierChar = [] := by
    cases rest with
    | nil => rfl
    | cons c cs => exact List.takeWhile_cons_of_neg (by simp [hrest c rfl])
  have hdrop : rest.dropWhile isIdentifierChar = rest := by
    cases rest with
    | nil => rfl
    | cons c cs => exact List.dropWhile_cons_of_neg (by simp [hrest c rfl])
  unfold takeIdentifier?
  rw [List.takeWhile_append_of_pos hname, List.dropWhile_append_of_pos hname, htake, hdrop, List.append_nil]
  cases name with
  | nil => exact absurd rfl hne
  | cons c cs => rfl

/-- The identifier taken is all that there is: what follows it starts with no identifier character. -/
theorem takeIdentifier?_eq_some_iff {cs name rest : List Char} : takeIdentifier? cs = some (name, rest) ↔
    cs = name ++ rest ∧ name ≠ [] ∧ (∀ c ∈ name, isIdentifierChar c = true) ∧
      ∀ c, rest.head? = some c → isIdentifierChar c = false := by
  constructor
  · intro h
    obtain ⟨hne, hname, happ⟩ := takeIdentifier?_eq_some h
    refine ⟨happ, hne, hname, fun c hc => ?_⟩
    have hrest : rest = cs.dropWhile isIdentifierChar := by
      unfold takeIdentifier? at h
      split at h
      · cases h
      · cases h; rfl
    have := List.head?_dropWhile_not isIdentifierChar cs
    rw [← hrest, hc] at this
    simpa using this
  · rintro ⟨rfl, hne, hname, hrest⟩
    exact takeIdentifier?_append hne hname hrest

/-! ## Words between blanks -/

/-- Blanks only, or nothing. -/
abbrev Blanks (cs : List Char) : Prop := ∀ c ∈ cs, isBlank c = true

/-- The text goes on with something that belongs to no identifier, or ends. -/
abbrev EndsWord (rest : List Char) : Prop := ∀ c, rest.head? = some c → isIdentifierChar c = false

theorem endsWord_cons {c : Char} (h : isIdentifierChar c = false) (rest : List Char) : EndsWord (c :: rest) := by
  intro d hd
  cases hd
  exact h

theorem endsWord_of_blanks {blanks : List Char} (hne : blanks ≠ []) (h : Blanks blanks) (rest : List Char) :
    EndsWord (blanks ++ rest) := by
  obtain ⟨c, blanks, rfl⟩ := List.exists_cons_of_ne_nil hne
  refine endsWord_cons (Bool.eq_false_iff.mpr fun hc => ?_) _
  cases (h c List.mem_cons_self).symm.trans (isBlank_of_isIdentifierChar hc)

theorem EndsWord.append_of_blanks {blanks rest : List Char} (hRest : EndsWord rest) (h : Blanks blanks) :
    EndsWord (blanks ++ rest) := by
  by_cases hne : blanks = []
  · rwa [hne, List.nil_append]
  · exact endsWord_of_blanks hne h rest

theorem takeIdentifier?_word {word : String} {rest : List Char} (h : IsIdentifier word) (hRest : EndsWord rest) :
    takeIdentifier? (word.toList ++ rest) = some (word.toList, rest) :=
  takeIdentifier?_append h.1 h.2 hRest

theorem exists_cons_of_isIdentifier {word : String} (h : IsIdentifier word) :
    ∃ c cs, word.toList = c :: cs ∧ isIdentifierChar c = true := by
  obtain ⟨c, cs, hWord⟩ := List.exists_cons_of_ne_nil h.1
  exact ⟨c, cs, hWord, h.2 c (hWord ▸ List.mem_cons_self)⟩

theorem trimStart_mark {blanks : List Char} {c : Char} (hBlanks : Blanks blanks) (h : isBlank c = false)
    (rest : List Char) : trimStart (blanks ++ c :: rest) = c :: rest := by
  rw [trimStart_append_of_blank hBlanks, trimStart_cons h]

theorem trimStart_word {blanks : List Char} {word : String} (hBlanks : Blanks blanks) (h : IsIdentifier word)
    (rest : List Char) : trimStart (blanks ++ (word.toList ++ rest)) = word.toList ++ rest := by
  obtain ⟨c, cs, hWord, hc⟩ := exists_cons_of_isIdentifier h
  rw [hWord, List.cons_append, trimStart_mark hBlanks (isBlank_of_isIdentifierChar hc)]

/-! ## Cuts at line feeds -/

section

variable {α : Type} [DecidableEq α] {feed back : α}

/-- A line without the carriage return it may end in, where `back` stands for one. -/
def withoutBack (back : α) (line : List α) : List α := if line.getLast? = some back then line.dropLast else line

/-- Lines cut at line feeds, less one carriage return in front of each. Texts and bytes are both cut so. -/
def cutFeeds (feed back : α) : List α → List (List α)
  | [] => []
  | a :: rest =>
    if a = feed then [] :: cutFeeds feed back rest
    else if a = back ∧ rest.head? = some feed then cutFeeds feed back rest
    else
      match cutFeeds feed back rest with
      | [] => [[a]]
      | line :: lines => (a :: line) :: lines

theorem withoutBack_cons {a : α} {line : List α} (h : line ≠ []) :
    withoutBack back (a :: line) = a :: withoutBack back line := by
  obtain ⟨b, line, rfl⟩ := List.exists_cons_of_ne_nil h
  unfold withoutBack
  rw [List.getLast?_cons_cons, List.dropLast_cons_of_ne_nil h]
  split <;> rfl

theorem cutFeeds_append {line : List α} (h : feed ∉ line) (rest : List α) :
    cutFeeds feed back (line ++ feed :: rest) = withoutBack back line :: cutFeeds feed back rest := by
  induction line with
  | nil => simp [cutFeeds, withoutBack]
  | cons a line ih =>
    obtain ⟨ha, hLine⟩ : feed ≠ a ∧ feed ∉ line := by simpa using h
    rw [List.cons_append, cutFeeds, if_neg ha.symm, ih hLine]
    by_cases hEmpty : line = []
    · subst hEmpty
      by_cases hBack : a = back
      · simp [hBack, withoutBack]
      · simp [hBack, withoutBack]
    · -- the line feed does not stand right behind `a`
      have hNext : ¬ (a = back ∧ (line ++ feed :: rest).head? = some feed) := by
        obtain ⟨b, line, rfl⟩ := List.exists_cons_of_ne_nil hEmpty
        rintro ⟨_, hHead⟩
        cases hHead
        exact hLine List.mem_cons_self
      rw [if_neg hNext, withoutBack_cons hEmpty]

theorem cutFeeds_of_not_mem {line : List α} (hne : line ≠ []) (h : feed ∉ line) : cutFeeds feed back line = [line] := by
  induction line with
  | nil => exact absurd rfl hne
  | cons a line ih =>
    obtain ⟨ha, hLine⟩ : feed ≠ a ∧ feed ∉ line := by simpa using h
    have hNext : ¬ (a = back ∧ line.head? = some feed) := fun hHead => hLine (List.mem_of_mem_head? hHead.2)
    rw [cutFeeds, if_neg ha.symm, if_neg hNext]
    by_cases hEmpty : line = []
    · rw [hEmpty]
      rfl
    · rw [ih hEmpty hLine]

end

/-! ## Lines -/

/-- A line without the carriage return it may end in. -/
def withoutReturn (cs : List Char) : List Char := if cs.getLast? = some '\r' then cs.dropLast else cs

/-- A line that is read back as it was written. -/
def IsLine (cs : List Char) : Prop := '\n' ∉ cs ∧ cs.getLast? ≠ some '\r'

instance (cs : List Char) : Decidable (IsLine cs) := inferInstanceAs (Decidable (_ ∧ _))

/-- The end of a line tells whether a carriage return is at risk. -/
theorem isLine_append {line rest : String} (h : '\n' ∉ line.toList) (hRest : rest.toList ≠ [] ∧ IsLine rest.toList) :
    IsLine (line ++ rest).toList := by
  rw [String.toList_append]
  refine ⟨fun hMem => ?_, fun hLast => hRest.2.2 ?_⟩
  · rcases List.mem_append.mp hMem with hMem | hMem
    · exact h hMem
    · exact hRest.2.1 hMem
  · rw [List.getLast?_append] at hLast
    cases hEnd : rest.toList.getLast? with
    | none => exact absurd (List.getLast?_eq_none_iff.mp hEnd) hRest.1
    | some c => rwa [hEnd] at hLast

theorem IsLine.withoutReturn_eq {cs : List Char} (h : IsLine cs) : withoutReturn cs = cs :=
  if_neg h.2

theorem trim_withoutReturn (cs : List Char) : trim (withoutReturn cs) = trim cs := by
  unfold withoutReturn
  split
  · rename_i h
    obtain ⟨ds, rfl⟩ := List.getLast?_eq_some_iff.mp h
    rw [List.dropLast_concat, trim_concat_of_blank (by decide)]
  · rfl

/-- What is read of a line that was written with a line feed behind it. -/
def readBack (line : String) : String := String.ofList (withoutReturn line.toList)

theorem readBack_eq {line : String} (h : IsLine line.toList) : readBack line = line := by
  rw [readBack, h.withoutReturn_eq, String.ofList_toList]

theorem map_readBack_eq {lines : List String} (h : ∀ line ∈ lines, IsLine line.toList) : lines.map readBack = lines :=
  (List.map_congr_left fun line hLine => readBack_eq (h line hLine)).trans (List.map_id _)

theorem trim_readBack (line : String) : trim (readBack line).toList = trim line.toList := by
  rw [readBack, String.toList_ofList, trim_withoutReturn]

theorem cutLines_eq_cutFeeds (cs : List Char) : cutLines cs = cutFeeds '\n' '\r' cs := by
  have hStays : ∀ {c : Char} {cs : List Char}, c ≠ '\n' → (∀ more, c = '\r' → cs ≠ '\n' :: more) →
      cutLines cs = cutFeeds '\n' '\r' cs → cutLines (c :: cs) = cutFeeds '\n' '\r' (c :: cs) := by
    intro c cs hFeed hReturn ih
    have hNext : ¬ (c = '\r' ∧ cs.head? = some '\n') := by
      rintro ⟨hc, hHead⟩
      obtain ⟨more, rfl⟩ := List.head?_eq_some_iff.mp hHead
      exact hReturn more hc rfl
    rw [cutLines.eq_4 c cs hFeed hReturn, ih, cutFeeds, if_neg hFeed, if_neg hNext]
    cases cutFeeds '\n' '\r' cs with
    | nil => rfl
    | cons line lines => rfl
  induction cs using cutLines.induct with
  | case1 => rfl
  | case2 cs ih => exact congrArg ([] :: ·) ih
  | case3 cs ih => exact congrArg ([] :: ·) ih
  | case4 c cs hFeed hReturn _ ih => exact hStays hFeed hReturn ih
  | case5 c cs hFeed hReturn _ _ _ ih => exact hStays hFeed hReturn ih

/-- A text up to its first line feed is its first line. -/
theorem cutLines_append {cs : List Char} (h : '\n' ∉ cs) (rest : List Char) :
    cutLines (cs ++ '\n' :: rest) = withoutReturn cs :: cutLines rest := by
  rw [cutLines_eq_cutFeeds, cutLines_eq_cutFeeds, cutFeeds_append h]
  rfl

/-- A text without a line feed is one line. -/
theorem cutLines_of_not_mem {cs : List Char} (hne : cs ≠ []) (h : '\n' ∉ cs) : cutLines cs = [cs] := by
  rw [cutLines_eq_cutFeeds, cutFeeds_of_not_mem hne h]

/-- Each line feed of a text ends a line. -/
theorem cutLines_append_feed (cs ds : List Char) :
    cutLines (cs ++ '\n' :: ds) = cutLines (cs ++ ['\n']) ++ cutLines ds := by
  by_cases h : '\n' ∈ cs
  · obtain ⟨front, rest, hcs, hFront⟩ := List.eq_append_cons_of_mem h
    have hRest : rest.length < cs.length := by
      rw [hcs, List.length_append, List.length_cons]
      omega
    simp only [hcs, List.append_assoc, List.cons_append]
    rw [cutLines_append hFront, cutLines_append hFront, cutLines_append_feed rest, List.cons_append]
  · rw [cutLines_append h, cutLines_append h]
    rfl
termination_by cs.length

theorem toList_unlines_cons (l : String) (ls : List String) :
    (unlines (l :: ls)).toList = l.toList ++ '\n' :: (unlines ls).toList := by
  simp [unlines, String.join_cons]

theorem unlines_append (ls ms : List String) : unlines (ls ++ ms) = unlines ls ++ unlines ms := by
  simp [unlines, String.join_append]

theorem lines_unlines_cons (l : String) (ls : List String) :
    lines (unlines (l :: ls)) = lines (unlines [l]) ++ lines (unlines ls) := by
  unfold lines
  rw [toList_unlines_cons, toList_unlines_cons, cutLines_append_feed, List.map_append]
  rfl

/-- What is written behind other lines is read behind them. -/
theorem lines_unlines_append (ls ms : List String) :
    lines (unlines (ls ++ ms)) = lines (unlines ls) ++ lines (unlines ms) := by
  induction ls with
  | nil => rfl
  | cons l ls ih => rw [List.cons_append, lines_unlines_cons, ih, lines_unlines_cons l ls, List.append_assoc]

/-- Lines written one after the other, a line feed behind each, are read back. -/
theorem lines_unlines {ls : List String} (h : ∀ l ∈ ls, '\n' ∉ l.toList) :
    lines (unlines ls) = ls.map readBack := by
  have hCut : cutLines (unlines ls).toList = ls.map fun l => withoutReturn l.toList := by
    induction ls with
    | nil => rfl
    | cons l ls ih =>
      rw [toList_unlines_cons, cutLines_append (h l List.mem_cons_self), ih fun x hx => h x (List.mem_cons_of_mem _ hx),
        List.map_cons]
  rw [lines, hCut, List.map_map]
  rfl

theorem lines_unlines_of_isLine {ls : List String} (h : ∀ l ∈ ls, IsLine l.toList) : lines (unlines ls) = ls := by
  rw [lines_unlines fun l hl => (h l hl).1, map_readBack_eq h]

/-! ## Parts between separators -/

section

variable {sep : Char}

theorem cutAt_ne_nil (sep : Char) (cs : List Char) : cutAt sep cs ≠ [] := by
  cases cs with
  | nil => exact List.cons_ne_nil _ _
  | cons c cs =>
    rw [cutAt]
    split
    · exact List.cons_ne_nil _ _
    · split <;> exact List.cons_ne_nil _ _

theorem cutAt_append (cs ds : List Char) : cutAt sep (cs ++ sep :: ds) = cutAt sep cs ++ cutAt sep ds := by
  induction cs with
  | nil => simp [cutAt]
  | cons c cs ih =>
    rw [List.cons_append, cutAt, cutAt, ih]
    split
    · rfl
    · obtain ⟨part, rest, hCut⟩ := List.exists_cons_of_ne_nil (cutAt_ne_nil sep cs)
      rw [hCut]
      rfl

theorem cutAt_of_not_mem {cs : List Char} (h : sep ∉ cs) : cutAt sep cs = [cs] := by
  induction cs with
  | nil => rfl
  | cons c cs ih =>
    obtain ⟨hc, hcs⟩ : sep ≠ c ∧ sep ∉ cs := by simpa using h
    rw [cutAt, if_neg hc.symm, ih hcs]

/-- A list of parts without the separator in them, written with separators between them. -/
def IsJoined (sep : Char) (parts : List (List Char)) (cs : List Char) : Prop :=
  parts ≠ [] ∧ (∀ part ∈ parts, sep ∉ part) ∧ [sep].intercalate parts = cs

theorem exists_isJoined (sep : Char) (cs : List Char) : ∃ parts, IsJoined sep parts cs := by
  induction cs with
  | nil => exact ⟨[[]], List.cons_ne_nil _ _, by simp, rfl⟩
  | cons c cs ih =>
    obtain ⟨parts, hne, hFree, rfl⟩ := ih
    by_cases hc : c = sep
    · subst hc
      obtain ⟨part, rest, rfl⟩ := List.exists_cons_of_ne_nil hne
      exact ⟨[] :: part :: rest, List.cons_ne_nil _ _, List.forall_mem_cons.mpr ⟨List.not_mem_nil, hFree⟩,
        List.intercalate_cons_cons⟩
    · obtain ⟨part, rest, rfl⟩ := List.exists_cons_of_ne_nil hne
      obtain ⟨hPart, hRest⟩ := List.forall_mem_cons.mp hFree
      refine ⟨(c :: part) :: rest, List.cons_ne_nil _ _, List.forall_mem_cons.mpr ⟨?_, hRest⟩, ?_⟩
      · exact List.not_mem_cons_of_ne_of_not_mem (Ne.symm hc) hPart
      · rcases rest with _ | ⟨next, rest⟩
        · simp
        · simp [List.intercalate_cons_cons]

theorem IsJoined.cutAt_eq {parts : List (List Char)} {cs : List Char} (h : IsJoined sep parts cs) :
    cutAt sep cs = parts := by
  obtain ⟨hne, hFree, rfl⟩ := h
  induction parts with
  | nil => exact absurd rfl hne
  | cons part parts ih =>
    obtain ⟨hPart, hRest⟩ := List.forall_mem_cons.mp hFree
    rcases parts with _ | ⟨next, parts⟩
    · simpa using cutAt_of_not_mem hPart
    · rw [List.intercalate_cons_cons, List.append_assoc, List.singleton_append, cutAt_append,
        cutAt_of_not_mem hPart, ih (List.cons_ne_nil _ _) hRest]
      rfl

/-- A text is cut into the parts that it is joined of. -/
theorem isJoined_cutAt (sep : Char) (cs : List Char) : IsJoined sep (cutAt sep cs) cs := by
  obtain ⟨parts, h⟩ := exists_isJoined sep cs
  rwa [h.cutAt_eq]

end

end Unbundle.Text
