/-
  Unbundle.Proofs.Schema.CommandId — which block gets which command id.

  A line that announces a command id says what the next block gets. A later line may say otherwise, and the id is
  forgotten once a block has taken it; nothing else touches it, whatever levels are opened and closed meanwhile.

  - `announcesId_of_kind`: how an id is read off its line, for digits of any number.
  - `lastId_next`: what one line does to the id of the next block.
  - `ids_feed_shares`: each share takes the id that was announced last in front of it.
  - `ids_of_gaps`: so every block has the id that was announced last since the block before it was opened.
-/

import Unbundle.Proofs.Schema.Balance
import Unbundle.Proofs.Schema.Partition

namespace Unbundle

open Line Text

variable {v : Vocabulary}

/-! ## The id of a line -/

namespace Line

/-- The line announces `id`: blanks and then a run of ASCII digits stand behind the marker. The id is the number that
    they make; it is 0 if there are none, and if the number takes more than 32 bits. -/
def AnnouncesId (v : Vocabulary) (line : String) (id : UInt32) : Prop :=
  Announces v line ∧ ∃ blanks digits rest, trim line.toList = v.marker.toList ++ (blanks ++ (digits ++ rest)) ∧
    (∀ c ∈ blanks, isBlank c = true) ∧ (∀ c, (digits ++ rest).head? = some c → isBlank c = false) ∧
    (∀ c ∈ digits, c.isDigit = true) ∧ (∀ c, rest.head? = some c → c.isDigit = false) ∧
    id.toNat = if digits ≠ [] ∧ Nat.ofDigitChars 10 digits 0 ≤ 4294967295 then Nat.ofDigitChars 10 digits 0 else 0

/-- The id announced last among lines, and 0 if none of them announces one. -/
def LastId (v : Vocabulary) (lines : List String) (id : UInt32) : Prop :=
  (∃ before line after, lines = before ++ line :: after ∧ AnnouncesId v line id ∧
    ∀ other ∈ after, ¬ Announces v other) ∨
  (∀ line ∈ lines, ¬ Announces v line) ∧ id = 0

theorem lastId_nil : LastId v [] 0 := .inr ⟨fun _ hLine => absurd hLine List.not_mem_nil, rfl⟩

theorem AnnouncesId.lastId_concat {line : String} {id : UInt32} (h : AnnouncesId v line id) (lines : List String) :
    LastId v (lines ++ [line]) id :=
  .inl ⟨lines, line, [], rfl, h, fun _ hLine => absurd hLine List.not_mem_nil⟩

/-- A line that announces nothing does not count. -/
theorem LastId.concat {lines : List String} {id : UInt32} (h : LastId v lines id) {line : String}
    (hLine : ¬ Announces v line) : LastId v (lines ++ [line]) id := by
  rcases h with ⟨before, last, after, rfl, hLast, hAfter⟩ | ⟨hNone, rfl⟩
  · refine .inl ⟨before, last, after ++ [line], by simp, hLast, ?_⟩
    intro other hOther
    rcases List.mem_append.mp hOther with hOther | hOther
    · exact hAfter other hOther
    · rwa [List.mem_singleton.mp hOther]
  · refine .inr ⟨?_, rfl⟩
    intro other hOther
    rcases List.mem_append.mp hOther with hOther | hOther
    · exact hNone other hOther
    · rwa [List.mem_singleton.mp hOther]

end Line

namespace LineKind

/-- A number that takes more than 32 bits reads as 0, and so does a text without digits. -/
theorem toNat_readCommandId {cs digits : List Char} (hDigits : digits = (trimStart cs).takeWhile Char.isDigit) :
    (readCommandId cs).toNat =
      if digits ≠ [] ∧ Nat.ofDigitChars 10 digits 0 ≤ 4294967295 then Nat.ofDigitChars 10 digits 0 else 0 := by
  have hValue : decimalValue digits = Nat.ofDigitChars 10 digits 0 := rfl
  unfold readCommandId
  rw [← hDigits, ← hValue]
  by_cases hSmall : decimalValue digits < 4294967296
  · have hNone : digits = [] → decimalValue digits = 0 := by
      intro hEmpty
      rw [hEmpty]
      rfl
    rw [if_pos (show decimalValue digits < Nat.pow 2 32 from hSmall), UInt32.toNat_ofNat_of_lt' hSmall]
    by_cases hEmpty : digits = []
    · rw [if_neg fun h => h.1 hEmpty, hNone hEmpty]
    · rw [if_pos ⟨hEmpty, by omega⟩]
  · rw [if_neg (show ¬ decimalValue digits < Nat.pow 2 32 from hSmall), if_neg fun h => hSmall (by omega)]
    rfl

theorem announcesId_of_kind {line : String} {id : UInt32} (h : of v true line = .commandId id) :
    AnnouncesId v line id := by
  have hAnnounces : Announces v line := of_eq_commandId_iff.mp ⟨id, h⟩
  obtain ⟨cs, hCut, rfl⟩ : ∃ cs, afterSpaced? v.marker.toList (trim line.toList) = some cs ∧
      readCommandId cs = id := by
    rw [of_true] at h
    split at h
    · rename_i hId
      cases h
      exact Option.map_eq_some_iff.mp hId
    · repeat' split at h
      all_goals cases h
  have hText : trim line.toList = v.marker.toList ++ cs := (afterSpaced?_eq_some_iff.mp hCut).1
  have hDigits : (trimStart cs).takeWhile Char.isDigit ++ (trimStart cs).dropWhile Char.isDigit = trimStart cs :=
    List.takeWhile_append_dropWhile
  have hBlanks : cs.takeWhile isBlank ++ trimStart cs = cs := List.takeWhile_append_dropWhile
  refine ⟨hAnnounces, cs.takeWhile isBlank, _, _, by rw [hDigits, hBlanks, hText], ?_, ?_, ?_, ?_,
    toNat_readCommandId rfl⟩
  · exact fun c hc => List.all_eq_true.mp List.all_takeWhile c hc
  · intro c hc
    rw [hDigits] at hc
    have hFirst := List.head?_dropWhile_not isBlank cs
    rw [← trimStart, hc] at hFirst
    simpa using hFirst
  · exact fun c hc => List.all_eq_true.mp List.all_takeWhile c hc
  · intro c hc
    have hFirst := List.head?_dropWhile_not Char.isDigit (trimStart cs)
    rw [hc] at hFirst
    simpa using hFirst

end LineKind

/-! ## The id of the next block -/

namespace Scan

variable {s : Scan}

/-- Only an announcement and the opening of a block change the id of the next block. -/
theorem pending_next (s : Scan) (line : String) : (s.next v line).pending =
    match LineKind.of v s.current?.isSome line with
    | .commandId id => id
    | .opener _ => if s.current?.isSome ∧ 0 < s.depth then s.pending else 0
    | _ => s.pending := by
  unfold next push
  rw [value_step]
  cases LineKind.of v s.current?.isSome line with
  | opener name => by_cases h : s.current?.isSome ∧ 0 < s.depth <;> simp [h, openNested, openBlock, change]
  | closing => by_cases h : s.depth = 0 <;> simp [h, change]
  | header => rfl
  | commandId id => rfl
  | nameless => rfl
  | plain reference? => rfl

/-- One more line that is no header line and opens no block: the id announced last stays that of the next block. -/
theorem lastId_next {lines : List String} {line : String} (hHeader : s.current?.isSome = true ∨ ¬ IsHeader v line)
    (hNested : (∃ name, Opens v line name) → s.current?.isSome = true ∧ 0 < s.depth)
    (h : LastId v lines s.pending) : LastId v (lines ++ [line]) (s.next v line).pending := by
  have hKind : LineKind.of v s.current?.isSome line = LineKind.of v true line := LineKind.of_of_not_header hHeader
  rw [pending_next, hKind]
  cases hk : LineKind.of v true line with
  | commandId id => exact (LineKind.announcesId_of_kind hk).lastId_concat lines
  | opener name =>
    have hOpens : Opens v line name := LineKind.of_eq_opener_iff.mp hk
    simp only [hNested ⟨name, hOpens⟩, and_self, if_true]
    exact h.concat hOpens.1
  | header | nameless | closing | plain =>
    apply h.concat
    intro hAnnounces
    obtain ⟨id, hId⟩ := LineKind.of_eq_commandId_iff.mpr hAnnounces
    cases hk.symm.trans hId

/-- In front of the first block, header lines announce nothing, whatever they start with. -/
theorem lastId_front {front : List String}
    (h : ∀ line ∈ front, IsHeader v line ∨ ¬ ((∃ name, Opens v line name) ∨ Closes line)) :
    (start.feed v front).blocks = [] ∧ (start.feed v front).current? = none ∧ (start.feed v front).depth = 0 ∧
      LastId v (front.filter fun line => ¬ IsHeader v line) (start.feed v front).pending := by
  induction front using List.reverseRecOn with
  | nil => exact ⟨rfl, rfl, rfl, lastId_nil⟩
  | append_singleton front line ih =>
    obtain ⟨hFront, hLine⟩ := List.forall_mem_append.mp h
    obtain ⟨hBlocks, hCurrent, hDepth, hLast⟩ := ih hFront
    rw [feed_append, feed_cons, feed_nil, List.filter_append]
    by_cases hHeader : IsHeader v line
    · obtain ⟨_, hNext⟩ := next_header hCurrent hHeader
      rw [hNext]
      exact ⟨hBlocks, hCurrent, hDepth, by simpa [hHeader] using hLast⟩
    · have hIdle := (hLine line (List.mem_singleton_self line)).resolve_left hHeader
      have hPending := lastId_next (.inr hHeader) (fun hOpens => absurd (.inl hOpens) hIdle) hLast
      obtain ⟨_, id, _, hNext⟩ := next_idle hCurrent hHeader hIdle
      rw [hNext] at hPending ⊢
      exact ⟨hBlocks, hCurrent, hDepth, by simpa [hHeader] using hPending⟩

/-- Levels inside a block neither take the id of the next one nor change it. -/
theorem lastId_inside {b : Block} (hCurrent : s.current? = some b) (hPending : s.pending = 0) {lines : List String}
    (h : Inside v s.depth lines) : LastId v lines (s.feed v lines).pending := by
  induction lines using List.reverseRecOn with
  | nil => exact hPending ▸ lastId_nil
  | append_singleton lines line ih =>
    obtain ⟨hLines, hLine⟩ := inside_concat_iff.mp h
    obtain ⟨_, hBlock, hDepth, _, _⟩ := feed_absorb hCurrent hLines
    rw [feed_append, feed_cons, feed_nil]
    refine lastId_next (.inl (by simp [hBlock])) (fun hOpens => ⟨by simp [hBlock], ?_⟩) (ih hLines)
    have := hLine (.inl hOpens)
    omega

/-! ## The ids of all blocks -/

/-- A share's block takes the id of the next block, and the lines of the share say what the one behind it gets. -/
theorem ids_feed_share {p : Share} (hFits : p.Fits v) (hDepth : s.depth = 0)
    (hHeader : s.current?.isSome = true ∨ ¬ IsHeader v p.opening) :
    (s.feed v p.lines).blocks.map Block.commandId = s.blocks.map Block.commandId ++ [s.pending] ∧
      (s.feed v p.lines).current?.isSome = true ∧ ((s.feed v p.lines).depth : Int) = levels v p.lines ∧
      LastId v p.rest (s.feed v p.lines).pending := by
  obtain ⟨_, hOpen⟩ := next_open hHeader (.inr hDepth) hFits.1
  have hCurrent : (s.next v p.opening).current? = some (.opened p.name s.pending p.opening) := by rw [hOpen]; rfl
  have hOne : (s.next v p.opening).depth = 1 := by rw [hOpen]; simp [openBlock, hDepth]
  have hInside : Inside v (s.next v p.opening).depth p.rest := hOne ▸ hFits.2
  obtain ⟨_, hBlock, hLevels, hEarlier, _⟩ := feed_absorb hCurrent hInside
  rw [Share.lines, feed_cons]
  refine ⟨?_, by rw [hBlock]; rfl, ?_, ?_⟩
  · rw [Scan.blocks, hBlock, hEarlier, hOpen]
    simp [openBlock, Block.opened]
  · rw [hLevels, hOne, ← Share.lines, hFits.levels_lines]
    rfl
  · exact lastId_inside hCurrent (by rw [hOpen]; rfl) hInside

/-- One share after the other: every block takes the id announced last since the block before it was opened. -/
theorem ids_feed_shares {shares : List Share} {gap : List String} (hFits : ∀ p ∈ shares, p.Fits v)
    (hClosed : ∀ p ∈ shares.dropLast, levels v p.lines = 0) (hDepth : shares ≠ [] → s.depth = 0)
    (hHeader : ∀ line, (shares.map Share.opening).head? = some line → s.current?.isSome = true ∨ ¬ IsHeader v line)
    (hGap : LastId v gap s.pending) : ∃ taken, (s.feed v (shares.flatMap Share.lines)).blocks.map Block.commandId ++
        [(s.feed v (shares.flatMap Share.lines)).pending] = s.blocks.map Block.commandId ++ taken ∧
      List.Forall₂ (LastId v) (gap :: shares.map Share.rest) taken := by
  induction shares generalizing s gap with
  | nil => exact ⟨[s.pending], rfl, .cons hGap .nil⟩
  | cons p shares ih =>
    obtain ⟨hp, hShares⟩ := List.forall_mem_cons.mp hFits
    obtain ⟨hIds, hCurrent, hLevels, hLast⟩ :=
      ids_feed_share hp (hDepth (List.cons_ne_nil p shares)) (hHeader p.opening rfl)
    have hZero : shares ≠ [] → (s.feed v p.lines).depth = 0 := by
      intro hMore
      have hEnd := hClosed p (by rw [List.dropLast_cons_of_ne_nil hMore]; exact List.mem_cons_self)
      omega
    obtain ⟨taken, hTaken, hAll⟩ := ih hShares (closed_tail hClosed) hZero (fun _ _ => .inl hCurrent) hLast
    refine ⟨s.pending :: taken, ?_, .cons hGap hAll⟩
    rw [List.flatMap_cons, feed_append, hTaken, hIds, List.append_assoc]
    rfl

end Scan

/-- The gaps between opening lines: the lines in front of the first one that are no header lines, and for every share
    the lines behind its opening line. -/
def Cut.gaps (v : Vocabulary) (c : Cut) : List (List String) :=
  (c.front.filter fun line => ¬ IsHeader v line) :: c.shares.map Share.rest

/-- Every block has the id announced last in the gap in front of its opening line, 0 if none was announced there, and
    the id announced last in the gap at the end is that of the next block. Gaps are those of the only cut of the lines
    that were not refused. -/
theorem ids_of_gaps (v : Vocabulary) (lines : List String) : ∃ c : Cut,
    (∀ c', c'.Cuts v (Scan.start.kept v lines) ↔ c' = c) ∧
    (Scan.start.feed v lines).finish.value.blocks.map Block.name = c.shares.map Share.name ∧
    List.Forall₂ (LastId v) (c.gaps v)
      ((Scan.start.feed v lines).finish.value.blocks.map Block.commandId ++ [(Scan.start.feed v lines).pending]) := by
  obtain ⟨c, hFollows, hCut⟩ := Scan.follows_feed v lines
  refine ⟨c, fun c' => ⟨fun h => cut_unique h hCut, fun h => h ▸ hCut⟩, ?_, ?_⟩
  · rw [Scan.value_finish]
    exact map_eq_of_forall₂ hFollows.blocks fun p b h => h.name_eq
  · obtain ⟨hBlocks, hCurrent, hDepth, hLast⟩ := Scan.lastId_front hCut.front
    obtain ⟨taken, hTaken, hAll⟩ := Scan.ids_feed_shares hCut.fits hCut.closed (fun _ => hDepth)
      (fun line hLine => .inr (hCut.first line hLine)) hLast
    have hFeed := Scan.feed_kept (v := v) .start lines
    rw [hCut.lines_eq, Scan.feed_append] at hFeed
    rw [hFeed, hBlocks] at hTaken
    rw [Scan.value_finish]
    exact hTaken ▸ hAll

/-- Of two announcements in front of a block the last one counts, one inside it goes to the next block, and a number
    that is too large announces nothing; no line is refused. -/
example :
    let v := Vocabulary.standard Vocabulary.defaultSuppressed Vocabulary.defaultMarker
    let lines := ["// CmdId: 5", "// CmdId: 7", "message Ping \x7b", "  // CmdId: 8", "\x7d", "message Pong \x7b", "\x7d",
      "// CmdId: 4294967296", "message Last \x7b", "\x7d"]
    Scan.start.kept v lines = lines ∧
      (Scan.start.feed v lines).finish.value.blocks.map (fun b => (b.name, b.commandId)) =
        [("Ping", 7), ("Pong", 8), ("Last", 0)] := by
  decide +kernel

end Unbundle
