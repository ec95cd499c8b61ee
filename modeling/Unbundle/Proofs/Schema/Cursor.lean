/-
  Unbundle.Proofs.Schema.Cursor — the block opened last, as a place among all blocks.

  A scan holds the block opened last apart from those in front of it. A cursor scan holds all blocks in one list and
  knows of that block only its place; every change is made at the place, and one outside the list ends the scan.

  (1) `push?_withCursor`, `feed?_withCursor`. A cursor scan does what a scan does, refused lines included, so no place
  is ever outside the list.

  (2) `wellPlaced_feed`. There is a cursor if and only if there is a block, and then it is on the last one; levels are
  open only behind a block.

  (3) `blocks_next_opener`, `blocks_next_other`. A line that opens a level makes a block at depth 0 and there alone; all
  other lines leave the blocks in front of the last one as they are.

  (4) `begins_of_getElem?`. Every block begins with the line that opened it and named it.

  `cursor_on_last_block` says all of this of a scan after any lines.
-/

import Unbundle.Proofs.Schema.Sequel

namespace Unbundle

open Line

variable {v : Vocabulary}

/-- A scan in progress that holds all its blocks in one list. -/
structure CursorScan where
  lineNumber : Nat
  depth : Nat
  pending : UInt32
  header : List String
  blocks : List Block
  /-- The place of the block opened last. -/
  cursor? : Option Nat

namespace CursorScan

def start : CursorScan := ⟨0, 0, 0, [], [], none⟩

/-- The scan with a change to the block under the cursor; nothing if the cursor is on no block. -/
def change? (s : CursorScan) (f : Block → Block) : Option CursorScan :=
  match s.cursor? with
  | none => some s
  | some i => if i < s.blocks.length then some { s with blocks := s.blocks.modify i f } else none

/-- The scan with a block added that has no lines yet, and the cursor on it. -/
def add (s : CursorScan) (name : String) : CursorScan :=
  { s with pending := 0, blocks := s.blocks ++ [⟨name, s.pending, [], [], []⟩], cursor? := some s.blocks.length }

/-- The scan with one more level, in the block under the cursor or in a new one. -/
def openLevel? (s : CursorScan) (name : String) : Option CursorScan :=
  (if s.cursor?.isSome && 0 < s.depth then s.change? (·.nest name) else some (s.add name)).map fun s =>
    { s with depth := s.depth + 1 }

/-- The scan with a line given to the block under the cursor. -/
def take? (s : CursorScan) (line : String) (reference? : Option String) : Option (CursorScan × Option Failure) :=
  (s.change? (·.append line reference?)).map (·, none)

/-- The scan after a line of a known kind, and the failure if the line is refused. An opening line is given away once
    the cursor has moved. -/
def step? (s : CursorScan) (kind : LineKind) (line : String) : Option (CursorScan × Option Failure) :=
  let s := { s with lineNumber := s.lineNumber + 1 }
  match kind with
  | .header => some ({ s with header := s.header ++ [line] }, none)
  | .commandId id => some ({ s with pending := id }, none)
  | .opener name => (s.openLevel? name).bind (·.take? line none)
  | .nameless => s.take? line none
  | .closing =>
    if s.depth = 0 then some (s, some (.unbalanced s.lineNumber))
    else { s with depth := s.depth - 1 }.take? line none
  | .plain reference? => s.take? line reference?

/-- The scan after one more line, and the failure if the line is refused. -/
def push? (v : Vocabulary) (s : CursorScan) (line : String) : Option (CursorScan × Option Failure) :=
  s.step? (.of v s.cursor?.isSome line) line

/-- The scan after more lines; a refused line does not end it. -/
def feed? (v : Vocabulary) (s : CursorScan) (lines : List String) : Option CursorScan :=
  lines.foldlM (fun s line => (s.push? v line).map Prod.fst) s

/-- The cursor is on the last block, if there is one, and levels are open only behind a block. -/
structure WellPlaced (s : CursorScan) : Prop where
  cursor_iff : ∀ i, s.cursor? = some i ↔ i + 1 = s.blocks.length
  exists_block : 0 < s.depth → s.blocks ≠ []

end CursorScan

namespace Scan

/-- The scan with all its blocks in one list. -/
def withCursor (s : Scan) : CursorScan :=
  ⟨s.lineNumber, s.depth, s.pending, s.header, s.blocks, s.current?.map fun _ => s.earlier.length⟩

variable (s : Scan)

/-! ## (1) No place outside the list -/

@[simp] theorem isSome_withCursor : s.withCursor.cursor?.isSome = s.current?.isSome := Option.isSome_map

@[simp] theorem depth_withCursor : s.withCursor.depth = s.depth := rfl

/-- The block under the cursor is the one opened last. -/
@[simp] theorem change?_withCursor (f : Block → Block) : s.withCursor.change? f = some (s.change f).withCursor := by
  unfold withCursor CursorScan.change? change blocks
  cases s.current? with
  | none => rfl
  | some b => simp [List.modify_eq_take_cons_drop]

theorem add_withCursor (name : String) : s.withCursor.add name =
    { s with pending := 0, earlier := s.blocks, current? := some ⟨name, s.pending, [], [], []⟩ : Scan }.withCursor := rfl

theorem take?_withCursor (line : String) (reference? : Option String) : s.withCursor.take? line reference? =
    some ((s.change (·.append line reference?)).withCursor, none) := by
  rw [CursorScan.take?, change?_withCursor, Option.map_some]

/-- An opening line is taken by the block that holds the new level. -/
theorem openLevel?_withCursor (name line : String) : (s.withCursor.openLevel? name).bind (·.take? line none) =
    some ((if s.current?.isSome ∧ 0 < s.depth then s.openNested name line else s.openBlock name line).withCursor,
      none) := by
  unfold CursorScan.openLevel?
  rw [isSome_withCursor, depth_withCursor]
  by_cases hNested : s.current?.isSome = true ∧ 0 < s.depth
  · -- a name and a line are two changes here, and one in the scan
    have hBoth : ({ s.change (·.nest name) with depth := s.depth + 1 } : Scan).change (·.append line none) =
        s.openNested name line := by
      unfold openNested change
      rw [Option.map_map]
      rfl
    rw [if_pos (by simpa using hNested), if_pos hNested, change?_withCursor, ← hBoth, ← take?_withCursor]
    rfl
  · have hBoth : ({ s with
        depth := s.depth + 1
        pending := 0
        earlier := s.blocks
        current? := some ⟨name, s.pending, [], [], []⟩ } : Scan).change (·.append line none) =
          s.openBlock name line := rfl
    rw [if_neg (by simpa using hNested), if_neg hNested, add_withCursor, ← hBoth, ← take?_withCursor]
    rfl

/-- A line does to a cursor scan what it does to the scan. -/
theorem push?_withCursor (line : String) : s.withCursor.push? v line =
    some ((s.next v line).withCursor, (s.push v line).value.2) := by
  have hNext : ({ s.withCursor with lineNumber := s.withCursor.lineNumber + 1 } : CursorScan) =
      ({ s with lineNumber := s.lineNumber + 1 } : Scan).withCursor := rfl
  unfold CursorScan.push? CursorScan.step? next push
  rw [isSome_withCursor, value_step, hNext]
  generalize ({ s with lineNumber := s.lineNumber + 1 } : Scan) = t
  cases LineKind.of v s.current?.isSome line with
  | header | commandId => rfl
  | opener name => exact openLevel?_withCursor t name line
  | nameless => exact take?_withCursor t line none
  | closing =>
    dsimp only
    by_cases hDepth : t.depth = 0
    · rw [if_pos (show t.withCursor.depth = 0 from hDepth), if_pos hDepth]
      rfl
    · rw [if_neg (show ¬ t.withCursor.depth = 0 from hDepth), if_neg hDepth]
      exact take?_withCursor { t with depth := t.depth - 1 } line none
  | plain reference? => exact take?_withCursor t line reference?

theorem feed?_withCursor (lines : List String) : s.withCursor.feed? v lines = some (s.feed v lines).withCursor := by
  induction lines generalizing s with
  | nil => rfl
  | cons line lines ih =>
    rw [CursorScan.feed?, List.foldlM_cons, push?_withCursor]
    exact ih (s.next v line)

/-! ## (2) The cursor is on the last block -/

variable {s} {line : String} {lines : List String}

/-- A scan is in no block and at depth 0, or it is in the block opened last. -/
theorem current?_feed (lines : List String) :
    (start.feed v lines).current? = none ∧ (start.feed v lines).earlier = [] ∧ (start.feed v lines).depth = 0 ∨
      ∃ b, (start.feed v lines).current? = some b := by
  obtain ⟨c, hFollows, _⟩ := follows_feed v lines
  cases hFollows with
  | front hCurrent hEarlier hDepth _ => exact .inl ⟨hCurrent, hEarlier, hDepth⟩
  | inside hCurrent _ _ _ _ => exact .inr ⟨_, hCurrent⟩

theorem wellPlaced_feed (lines : List String) : (start.feed v lines).withCursor.WellPlaced := by
  unfold withCursor blocks
  rcases current?_feed (v := v) lines with ⟨hCurrent, hEarlier, hDepth⟩ | ⟨b, hCurrent⟩
  · rw [hCurrent, hEarlier, hDepth]
    exact ⟨by simp, fun h => absurd h (Nat.lt_irrefl 0)⟩
  · rw [hCurrent]
    refine ⟨fun i => ?_, fun _ => List.append_ne_nil_of_right_ne_nil _ (List.cons_ne_nil b [])⟩
    simp only [Option.map_some, Option.some.injEq, Option.toList_some, List.length_append, List.length_singleton]
    omega

theorem earlier_feed (lines : List String) :
    (start.feed v lines).earlier = (start.feed v lines).blocks.dropLast := by
  unfold blocks
  rcases current?_feed (v := v) lines with ⟨hCurrent, hEarlier, _⟩ | ⟨b, hCurrent⟩
  · rw [hCurrent, hEarlier]
    rfl
  · rw [hCurrent, Option.toList_some, List.dropLast_concat]

/-- An opening line goes into a block wherever a level is open, since none is open in front of the first block. -/
theorem opensNested_iff (lines : List String) :
    (start.feed v lines).current?.isSome = true ∧ 0 < (start.feed v lines).depth ↔
      0 < (start.feed v lines).depth := by
  refine and_iff_right_of_imp fun hDepth => ?_
  rcases current?_feed (v := v) lines with ⟨_, _, hZero⟩ | ⟨b, hCurrent⟩
  · omega
  · rw [hCurrent, Option.isSome_some]

/-! ## (3) Where a line goes -/

/-- A line adds a block, or it changes the one under the cursor, which keeps its name and all its lines. -/
theorem blocks_next_behind (lines : List String) (line : String) :
    (∃ name, Opens v line name ∧ OpensBlock v lines line ∧ ((start.feed v lines).next v line).blocks =
      (start.feed v lines).blocks ++ [.opened name (start.feed v lines).pending line]) ∨
    ¬ OpensBlock v lines line ∧ ((start.feed v lines).next v line).earlier = (start.feed v lines).earlier ∧
      ∃ change : Block → Block, ((start.feed v lines).next v line).blocks =
        (start.feed v lines).blocks.modify (start.feed v lines).earlier.length change ∧
      ∀ b, (change b).name = b.name ∧ ((change b).body = b.body ∨ (change b).body = b.body ++ [line]) := by
  have hTracks := tracks_feed (v := v) lines
  rw [OpensBlock, ← hTracks.opener_iff]
  rcases blocks_next (v := v) (start.feed v lines) line with
    ⟨name, hOpener, hOuter, hEarlier, hCurrent⟩ | ⟨hNested, hEarlier, change, hCurrent, hChange⟩
  · refine .inl ⟨name, (LineKind.of_eq_opener_iff_behind.mp hOpener).1, ⟨⟨name, hOpener⟩, ?_⟩, ?_⟩
    · rw [opensNested_iff] at hOuter
      omega
    · rw [blocks, hEarlier, hCurrent, Option.toList_some]
  · refine .inr ⟨?_, hEarlier, change, ?_, hChange⟩
    · rintro ⟨⟨name, hOpener⟩, hDepth⟩
      have hOpen := (hNested name hOpener).2
      omega
    · rw [blocks, hEarlier, hCurrent, blocks]
      cases (start.feed v lines).current? with
      | none => simp [List.modify_eq_self]
      | some b => simp [List.modify_eq_take_cons_drop]

/-- A line that opens a level makes a block if no level is open, and belongs to the last block if one is. -/
theorem blocks_next_opener {name : String} (hOpens : Opens v line name) (hBehind : OpensBehind v lines line) :
    ((start.feed v lines).depth = 0 ∧ ((start.feed v lines).next v line).blocks =
      (start.feed v lines).blocks ++ [.opened name (start.feed v lines).pending line]) ∨
    (0 < (start.feed v lines).depth ∧ ∃ earlier b, (start.feed v lines).blocks = earlier ++ [b] ∧
      ((start.feed v lines).next v line).blocks = earlier ++ [(b.nest name).append line none]) := by
  have hKind : LineKind.of v (start.feed v lines).current?.isSome line = .opener name :=
    LineKind.of_eq_opener_iff_behind.mpr ⟨hOpens, ((tracks_feed lines).header_iff line).not.mpr hBehind.2⟩
  unfold next push
  rw [hKind, value_step]
  dsimp only
  rcases Nat.eq_zero_or_pos (start.feed v lines).depth with hDepth | hDepth
  · rw [if_neg (by rw [opensNested_iff]; omega)]
    exact .inl ⟨hDepth, rfl⟩
  · rw [if_pos ((opensNested_iff lines).mpr hDepth)]
    obtain ⟨b, hCurrent⟩ := Option.isSome_iff_exists.mp ((opensNested_iff lines).mpr hDepth).1
    refine .inr ⟨hDepth, (start.feed v lines).earlier, b, ?_, ?_⟩
    · rw [blocks, hCurrent, Option.toList_some]
    · simp [openNested, change, blocks, hCurrent]

/-- All other lines leave the number of blocks as it is, and the blocks in front of the last one. -/
theorem blocks_next_other (h : ¬ OpensBlock v lines line) :
    ((start.feed v lines).next v line).blocks.length = (start.feed v lines).blocks.length ∧
      ((start.feed v lines).next v line).blocks.dropLast = (start.feed v lines).blocks.dropLast := by
  rcases blocks_next_behind lines line with ⟨_, _, hOpens, _⟩ | ⟨_, hEarlier, change, hBlocks, _⟩
  · exact absurd hOpens h
  · have hLast := earlier_feed (v := v) (lines ++ [line])
    rw [feed_append, feed_cons, feed_nil, hEarlier, earlier_feed] at hLast
    exact ⟨by rw [hBlocks, List.length_modify], hLast.symm⟩

theorem dropLast_isPrefix_feed (lines more : List String) :
    (start.feed v lines).blocks.dropLast <+: ((start.feed v lines).feed v more).blocks := by
  rw [← earlier_feed]
  exact (earlier_isPrefix_feed _ more).trans (List.prefix_append _ _)

end Scan

/-! ## (4) The line a block begins with -/

/-- The block in place `k` begins with one of the lines, which opened it behind `k` others and named it. -/
def Line.BeginsBlock (v : Vocabulary) (lines : List String) (k : Nat) (b : Block) : Prop :=
  ∃ before opening after, lines = before ++ opening :: after ∧ OpensBlock v before opening ∧
    Opens v opening b.name ∧ (Scan.start.feed v before).blocks.length = k ∧ b.body.head? = some opening

/-- A block begins with the same line for as long as its name stays and its body only grows at the end. -/
theorem Line.BeginsBlock.concat {lines : List String} {line : String} {k : Nat} {a b : Block}
    (h : BeginsBlock v lines k a) (hName : b.name = a.name) (hBody : b.body = a.body ∨ b.body = a.body ++ [line]) :
    BeginsBlock v (lines ++ [line]) k b := by
  obtain ⟨before, opening, after, rfl, hBlock, hOpens, hPlace, hFirst⟩ := h
  refine ⟨before, opening, after ++ [line], by simp, hBlock, hName ▸ hOpens, hPlace, ?_⟩
  rcases hBody with hBody | hBody
  · rw [hBody, hFirst]
  · rw [hBody, List.head?_append, hFirst, Option.some_or]

namespace Scan

/-- A block keeps its place, its name and its first line. -/
theorem begins_of_getElem? {lines : List String} {k : Nat} {b : Block}
    (h : (start.feed v lines).blocks[k]? = some b) : BeginsBlock v lines k b := by
  induction lines using List.reverseRecOn generalizing b with
  | nil => simp [start, blocks] at h
  | append_singleton lines line ih =>
    rw [feed_append, feed_cons, feed_nil] at h
    rcases blocks_next_behind lines line with ⟨name, hOpens, hBlock, hBlocks⟩ | ⟨_, _, change, hBlocks, hChange⟩
    · rw [hBlocks, List.getElem?_append, List.getElem?_singleton] at h
      by_cases hBefore : k < (start.feed v lines).blocks.length
      · rw [if_pos hBefore] at h
        exact (ih h).concat rfl (.inl rfl)
      · rw [if_neg hBefore] at h
        obtain ⟨hLast, hOpened⟩ := Option.ite_some_none_eq_some.mp h
        subst hOpened
        exact ⟨lines, line, [], rfl, hBlock, hOpens, by omega, rfl⟩
    · rw [hBlocks, List.getElem?_modify] at h
      obtain ⟨a, hBefore, hAfter⟩ := Option.map_eq_some_iff.mp h
      split at hAfter
      · exact (ih hBefore).concat (hAfter ▸ (hChange a).1) (hAfter ▸ (hChange a).2)
      · exact (ih hBefore).concat (hAfter ▸ rfl) (.inl (hAfter ▸ rfl))

end Scan

/-- Whatever lines were fed, refused ones included, the cursor is on the last block and no line makes a change outside
    the list. An opening line makes a block if and only if no level is open, any other line leaves the blocks in front
    of the last one as they are, and every block begins with the line that opened it. -/
theorem cursor_on_last_block (v : Vocabulary) (lines : List String) :
    let s := Scan.start.feed v lines
    CursorScan.start.feed? v lines = some s.withCursor ∧
    (∀ line, s.withCursor.push? v line = some ((s.next v line).withCursor, (s.push v line).value.2)) ∧
    s.withCursor.WellPlaced ∧
    (∀ line name, Opens v line name → OpensBehind v lines line →
      (s.depth = 0 ∧ (s.next v line).blocks = s.blocks ++ [.opened name s.pending line]) ∨
      (0 < s.depth ∧ ∃ earlier b, s.blocks = earlier ++ [b] ∧
        (s.next v line).blocks = earlier ++ [(b.nest name).append line none])) ∧
    (∀ line, ¬ OpensBlock v lines line →
      (s.next v line).blocks.length = s.blocks.length ∧ (s.next v line).blocks.dropLast = s.blocks.dropLast) ∧
    (∀ k b, s.blocks[k]? = some b → BeginsBlock v lines k b) ∧
    ∀ more, s.blocks.dropLast <+: (s.feed v more).blocks := by
  refine ⟨Scan.feed?_withCursor .start lines, Scan.push?_withCursor _, Scan.wellPlaced_feed lines, ?_, ?_, ?_, ?_⟩
  · intro line name hOpens hBehind
    exact Scan.blocks_next_opener hOpens hBehind
  · intro line hOther
    exact Scan.blocks_next_other hOther
  · intro k b hPlace
    exact Scan.begins_of_getElem? hPlace
  · exact Scan.dropLast_isPrefix_feed lines

namespace Vocabulary

/-- Two blocks with closings in front of the first one and between them that are refused. -/
def pairLines : List String :=
  ["\x7d", "message Pair \x7b", "enum Side \x7b", "\x7d", "\x7d", "\x7d", "message Left \x7b"]

/-- Behind these lines the cursor is on the second block, which takes one more level and begins with the seventh line;
    the first block has come to its end. -/
theorem cursor_behind_pairLines :
    let s := Scan.start.feed (standard defaultSuppressed defaultMarker) pairLines
    s.withCursor.cursor? = some 1 ∧ s.withCursor.WellPlaced ∧
    (s.next (standard defaultSuppressed defaultMarker) "enum Side \x7b").blocks =
      [⟨"Pair", 0, ["message Pair \x7b", "enum Side \x7b", "\x7d", "\x7d"], [], ["Side"]⟩,
        ⟨"Left", 0, ["message Left \x7b", "enum Side \x7b"], [], ["Side"]⟩] ∧
    BeginsBlock (standard defaultSuppressed defaultMarker) pairLines 1 ⟨"Left", 0, ["message Left \x7b"], [], []⟩ := by
  obtain ⟨_, _, hPlaced, hOpener, _, hBegins, _⟩ :=
    cursor_on_last_block (standard defaultSuppressed defaultMarker) pairLines
  refine ⟨rfl, hPlaced, ?_, hBegins 1 _ rfl⟩
  rcases hOpener "enum Side \x7b" "Side" (by decide) (by decide) with ⟨hDepth, _⟩ | ⟨_, earlier, b, hBefore, hAfter⟩
  · cases hDepth
  · obtain ⟨rfl, rfl⟩ : earlier = [⟨"Pair", 0, ["message Pair \x7b", "enum Side \x7b", "\x7d", "\x7d"], [], ["Side"]⟩] ∧
        b = ⟨"Left", 0, ["message Left \x7b"], [], []⟩ := List.append_singleton_inj.mp hBefore.symm
    exact hAfter

end Vocabulary

end Unbundle
